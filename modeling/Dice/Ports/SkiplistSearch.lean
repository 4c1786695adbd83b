import Dice.Verified.Run
import Dice.Ports.Skiplist

/-!
# Searching in skiplists

A skiplist is a list of towers: its links are those of the towers, with the
header in front, and everything else in it is determined by the towers too.  A
search ends at a place in the list and leaves on each level the last tower
before that place that reaches the level, with its rank.
-/

namespace Dice.Ports.SkiplistSearch

open List Verified Run CString Towers Skiplist Nat

variable {S : Type}

/-- A node as a part of the list. -/
structure Tower (S : Type) where
  ptr : Ptr
  height : Nat
  score : S
  ele : Bytes

/-- Where a tower stands and how high it is. -/
def Tower.spot (t : Tower S) : Ptr × Nat := (t.ptr, t.height)

/-- The header and the towers. -/
def chain (header : Ptr) (ts : List (Tower S)) : List (Ptr × Nat) :=
  (header, zskiplistMaxlevel) :: ts.map Tower.spot

/-- Links of level `i` for a list of spots. -/
abbrev LinkedSpots (i : Nat) (link : Ptr → Option (Link Ptr)) (spots : List (Ptr × Nat)) : Prop :=
  Linked Prod.snd Prod.fst i link spots

/-- What a node holds besides its links. -/
structure Face (S : Type) where
  ele : Bytes
  score : S
  backward : Option Ptr
  height : Nat

def Zskiplist.face (zsl : Zskiplist S) (p : Ptr) : Option (Face S) :=
  (zsl.nodes p).map fun n => ⟨n.ele, n.score, n.backward, n.level.length⟩

/-- The nodes of the towers, each with the one before it as its backward pointer. -/
def Faces (face : Ptr → Option (Face S)) : Option Ptr → List (Tower S) → Prop
  | _, [] => True
  | prev, t :: ts => face t.ptr = some ⟨t.ele, t.score, prev, t.height⟩ ∧ Faces face (some t.ptr) ts

/-- The skiplist of a list of towers, except that its level may be too high. -/
structure Woven (zsl : Zskiplist S) (ts : List (Tower S)) : Prop where
  links : ∀ i < zsl.level, LinkedSpots i (zsl.getLevel · i) (chain zsl.header ts)
  upper : ∀ i, zsl.level ≤ i → i < zskiplistMaxlevel →
    ∃ l, zsl.getLevel zsl.header i = some l ∧ l.forward = none
  faces : Faces (Zskiplist.face zsl) none ts
  tail : zsl.tail = ts.getLast?.map Tower.ptr
  length : zsl.length = ts.length
  level_pos : 0 < zsl.level
  level_le : zsl.level ≤ zskiplistMaxlevel
  heights : ∀ t ∈ ts, 0 < t.height ∧ t.height ≤ zsl.level
  nodup : ((chain zsl.header ts).map Prod.fst).Nodup
  fresh : ∀ p ∈ (chain zsl.header ts).map Prod.fst, p < zsl.fresh

/-- The skiplist of a list of towers. -/
structure Represents (zsl : Zskiplist S) (ts : List (Tower S)) : Prop
    extends Woven zsl ts where
  level_exact : zsl.level = 1 ∨ ∃ t ∈ ts, t.height = zsl.level

variable {ts as bs : List (Tower S)} {t : Tower S} {zsl : Zskiplist S} {test : Nat → Tower S → Bool}
  {i : Nat} {before : Nat → Node S → Bool}

lemma Faces.get {face : Ptr → Option (Face S)} {prev : Option Ptr}
    (h : Faces face prev ts) (ht : t ∈ ts) :
    ∃ b, face t.ptr = some ⟨t.ele, t.score, b, t.height⟩ := by
  induction ts generalizing prev with
  | nil => simp at ht
  | cons t' ts ih =>
    rcases mem_cons.mp ht with rfl | ht
    · exact ⟨prev, h.1⟩
    · exact ih h.2 ht

section Faces

variable {face face' : Ptr → Option (Face S)} {as rest ts : List (Tower S)}

/-- The pointer to the last tower, or to what was before the list. -/
def lastPtr : Option Ptr → List (Tower S) → Option Ptr
  | prev, [] => prev
  | _, t :: ts => lastPtr (some t.ptr) ts

lemma lastPtr_eq (prev : Option Ptr) (ts : List (Tower S)) :
    lastPtr prev ts = (ts.getLast?.map Tower.ptr).or prev := by
  induction ts generalizing prev with
  | nil => rfl
  | cons t ts ih =>
    rw [lastPtr, ih, getLast?_cons]
    cases ts.getLast? <;> rfl

lemma faces_append {prev : Option Ptr} :
    Faces face prev (as ++ ts) ↔ Faces face prev as ∧ Faces face (lastPtr prev as) ts := by
  induction as generalizing prev with
  | nil => simp [Faces, lastPtr]
  | cons t as ih => rw [cons_append, Faces, Faces, ih, lastPtr, and_assoc]

lemma Faces.congr {prev : Option Ptr} (h : Faces face prev ts)
    (heq : ∀ t ∈ ts, face' t.ptr = face t.ptr) : Faces face' prev ts := by
  induction ts generalizing prev with
  | nil => trivial
  | cons t ts ih =>
    refine ⟨?_, ih h.2 fun s hs => heq s (mem_cons_of_mem _ hs)⟩
    rw [heq t (mem_cons_self ..)]
    exact h.1

end Faces

lemma Woven.node (h : Woven zsl ts) (ht : t ∈ ts) :
    ∃ n, zsl.nodes t.ptr = some n ∧ n.ele = t.ele ∧ n.score = t.score ∧
    n.level.length = t.height := by
  obtain ⟨b, hface⟩ := h.faces.get ht
  obtain ⟨n, hn, heq⟩ := Option.map_eq_some_iff.mp hface
  injection heq with hele hscore _ hheight
  exact ⟨n, hn, hele, hscore, hheight⟩

/-! ## One level -/

/-- On level `j` the search cannot go on behind `as`: the next tower that reaches the
level is not before the place. -/
def Blocked (test : Nat → Tower S → Bool) (j : Nat) (as bs : List (Tower S)) : Prop :=
  ∀ t, above Tower.height j bs = some t → test (as.length + dist Tower.height j bs) t = false

lemma Blocked.append {j : Nat} {mid : List (Tower S)}
    (h : Blocked test j as (mid ++ bs)) (hmid : Low Tower.height j mid) :
    Blocked test j (as ++ mid) bs := by
  intro t ht
  have := h t (by rw [above_append_low hmid, ht])
  rwa [dist_append_low hmid, ← add_assoc, ← length_append] at this

/-- A tower that the search passes does not reach a level where it was blocked. -/
lemma Blocked.passes {j : Nat} {low rest : List (Tower S)}
    (h : Blocked test j as (low ++ t :: rest)) (hlow : Low Tower.height j low)
    (htest : test (as.length + (low.length + 1)) t) : Low Tower.height j (low ++ [t]) := by
  apply hlow.append
  intro x hx
  rw [mem_singleton.mp hx]
  by_contra hhigh
  have ht : j < t.height := by omega
  have := h t (by rw [above_append_low hlow, above_cons_high ht])
  rw [dist_append_low hlow, dist_cons_high ht, htest] at this
  cases this

/-- The last spot of the header and some towers. -/
def tip (header : Ptr) (as : List (Tower S)) : Ptr × Nat :=
  as.getLast?.elim (header, zskiplistMaxlevel) Tower.spot

lemma chain_eq_tip (header : Ptr) (as : List (Tower S)) :
    ∃ pre, chain header as = pre ++ [tip header as] ∧ pre.length = as.length := by
  rcases eq_nil_or_concat as with rfl | ⟨as, t, rfl⟩
  · exact ⟨[], rfl, rfl⟩
  · refine ⟨chain header as, ?_, by simp [chain]⟩
    simp [chain, tip]

lemma chain_append (header : Ptr) (as bs : List (Tower S)) :
    chain header (as ++ bs) = chain header as ++ bs.map Tower.spot := by
  simp [chain]

lemma Woven.link_tip
    (h : Woven zsl (as ++ bs)) (hi : i < zsl.level) (htip : i < (tip zsl.header as).2) :
    zsl.getLevel (tip zsl.header as).1 i =
    some ⟨(above Tower.height i bs).map Tower.ptr, dist Tower.height i bs⟩ := by
  obtain ⟨pre, hpre, _⟩ := chain_eq_tip zsl.header as
  have hlinks := h.links i hi
  rw [chain_append, hpre, append_assoc, singleton_append] at hlinks
  rw [hlinks.link_eq htip, above_map, dist_map, Option.map_map]
  rfl

/-- `before` looks at the rank, the score and the element. -/
def Reads (before : Nat → Node S → Bool) (test : Nat → Tower S → Bool) : Prop :=
  ∀ rank n t, n.ele = t.ele → n.score = t.score → before rank n = test rank t

lemma tip_append_cons (header : Ptr) (as low : List (Tower S)) (t : Tower S) :
    tip header (as ++ (low ++ [t])) = t.spot := by
  rw [tip, ← append_assoc, getLast?_concat]
  rfl

/-- The search went up to the end of `as` because its last tower is before the place. -/
def Reached (test : Nat → Tower S → Bool) (as : List (Tower S)) : Prop :=
  ∀ t ∈ as.getLast?, test as.length t = true

/-- One level of a search: it goes forward as far as it can. -/
lemma walkLevel_spec (hreads : Reads before test) (hi : i < zsl.level)
    (h : Woven zsl (as ++ bs)) (htip : i < (tip zsl.header as).2)
    (fuel : Nat) (hfuel : bs.length < fuel) :
    ∃ mid rest, bs = mid ++ rest ∧ walkLevel zsl before i fuel (tip zsl.header as).1 as.length =
      some ((tip zsl.header (as ++ mid)).1, (as ++ mid).length) ∧
    i < (tip zsl.header (as ++ mid)).2 ∧
    (Reached test as → Reached test (as ++ mid)) ∧
    Blocked test i (as ++ mid) rest ∧
    ∀ j, i ≤ j → Blocked test j as bs → Low Tower.height j mid := by
  induction fuel generalizing as bs with
  | zero => omega
  | succ fuel ih =>
    have hlink := h.link_tip hi htip
    cases habove : above Tower.height i bs with
    | none =>
      refine ⟨[], bs, rfl, ?_, by rwa [append_nil], by simp, ?_, by simp [Low]⟩
      · rw [walkLevel, hlink, habove, append_nil]
        rfl
      · intro t ht
        rw [habove] at ht
        cases ht
    | some t =>
      obtain ⟨low, rest, rfl, hlow, ht, hdist⟩ := above_eq_some habove
      obtain ⟨n, hn, hele, hscore, _⟩ := h.node (t := t) (by simp)
      have hstep : walkLevel zsl before i (fuel + 1) (tip zsl.header as).1 as.length =
        if test (as.length + (low.length + 1)) t then
          walkLevel zsl before i fuel t.ptr (as.length + (low.length + 1))
        else some ((tip zsl.header as).1, as.length) := by
        simp [walkLevel, hlink, habove, hn, hdist, hreads _ n t hele hscore]
      cases htest : test (as.length + (low.length + 1)) t with
      | false =>
        refine ⟨[], low ++ t :: rest, rfl, by rw [hstep, htest, append_nil]; rfl,
          by rwa [append_nil], by simp, ?_, by simp [Low]⟩
        intro t' ht'
        rw [habove, Option.some.injEq] at ht'
        rw [← ht', hdist, append_nil, htest]
      | true =>
        have hassoc : as ++ (low ++ t :: rest) = as ++ (low ++ [t]) ++ rest := by simp
        have htip' : tip zsl.header (as ++ (low ++ [t])) = t.spot := tip_append_cons ..
        have hlen : (as ++ (low ++ [t])).length = as.length + (low.length + 1) := by simp
        rw [hassoc] at h
        obtain ⟨mid, rest', rfl, hwalk, hhigh, hlast, hblocked, hlower⟩ :=
          ih h (by rw [htip']; exact ht) (by
            rw [length_append, length_cons] at hfuel
            omega)
        rw [htip', hlen] at hwalk
        refine ⟨low ++ [t] ++ mid, rest', by simp, ?_, ?_, ?_, ?_, ?_⟩
        · rw [hstep, htest, ← append_assoc]
          exact hwalk
        · rwa [← append_assoc]
        · intro _
          rw [← append_assoc]
          apply hlast
          rw [Reached, hlen, ← append_assoc, getLast?_concat]
          rintro _ ⟨⟩
          exact htest
        · rwa [← append_assoc]
        intro j hij hj
        have hlow' := hj.passes (hlow.mono hij) htest
        apply hlow'.append
        apply hlower j hij
        apply Blocked.append _ hlow'
        simpa using hj

/-- On level `i` the last of the header and the towers of `as` that reaches it, with
its rank. -/
def Finger (header : Ptr) (as : List (Tower S)) (i : Nat) (entry : Ptr × Nat) : Prop :=
  ∃ cs u ds, chain header as = cs ++ u :: ds ∧ i < u.2 ∧ Low Prod.snd i ds ∧
    entry = (u.1, cs.length)

/-- `update` and `rank` for a place behind `as`. -/
def Fingers (header : Ptr) (as : List (Tower S)) (m : Nat) (update : List (Ptr × Nat)) : Prop :=
  ∀ i < m, ∃ entry, update[i]? = some entry ∧ Finger header as i entry

lemma finger_tip {header : Ptr} {mid : List (Tower S)}
    (htip : i < (tip header as).2) (hmid : Low Tower.height i mid) :
    Finger header (as ++ mid) i ((tip header as).1, as.length) := by
  obtain ⟨pre, hpre, hlen⟩ := chain_eq_tip header as
  refine ⟨pre, tip header as, mid.map Tower.spot, ?_, htip, ?_, by rw [hlen]⟩
  · rw [chain_append, hpre, append_assoc, singleton_append]
  · intro spot hspot
    obtain ⟨t, ht, rfl⟩ := mem_map.mp hspot
    exact hmid t ht

/-- The search from some place on and on the levels below `m`. -/
lemma searchFrom_spec (hreads : Reads before test) {m : Nat} (hm : m ≤ zsl.level)
    (h : Woven zsl (as ++ bs)) (htip : m ≤ (tip zsl.header as).2) (hreached : Reached test as) :
    ∃ mid rest update, bs = mid ++ rest ∧
    searchFrom zsl before m (tip zsl.header as).1 as.length = some update ∧
    update.length = m ∧ Fingers zsl.header (as ++ mid) m update ∧ Reached test (as ++ mid) ∧
    (∀ i < m, Blocked test i (as ++ mid) rest) ∧
    ∀ j, m ≤ j → Blocked test j as bs → Low Tower.height j mid := by
  induction m generalizing as bs with
  | zero =>
    refine ⟨[], bs, [], rfl, rfl, rfl, ?_, by rwa [append_nil], ?_, by simp [Low]⟩
    · intro i hi
      omega
    · intro i hi
      omega
  | succ m ih =>
    obtain ⟨mid, rest, rfl, hwalk, htip', hreached', hblocked, hlow⟩ :=
      walkLevel_spec hreads hm h htip (zsl.length + 1) (by
        rw [h.length, length_append]
        omega)
    rw [← append_assoc] at h
    obtain ⟨mid', rest', update, rfl, hsearch, hlen, hfingers, hreached'', hblocked', hlow'⟩ :=
      ih (by omega) h (le_of_lt htip') (hreached' hreached)
    have hmid' : Low Tower.height m mid' := hlow' m (le_refl m) hblocked
    refine ⟨mid ++ mid', rest', update ++ [((tip zsl.header (as ++ mid)).1, (as ++ mid).length)],
      by simp, ?_, by simp [hlen], ?_, by rwa [← append_assoc], ?_, ?_⟩
    · simp only [searchFrom, hwalk, hsearch, some_bind]
    · intro i hi
      rw [← append_assoc]
      rcases lt_or_eq_of_le (le_of_lt_succ hi) with hi | rfl
      · rw [getElem?_append_left (by omega)]
        exact hfingers i hi
      · refine ⟨_, by rw [← hlen, getElem?_concat_length], finger_tip htip' hmid'⟩
    · intro i hi
      rw [← append_assoc]
      rcases lt_or_eq_of_le (le_of_lt_succ hi) with hi | rfl
      · exact hblocked' i hi
      · exact hblocked.append hmid'
    · intro j hj hjblocked
      have hmid := hlow j (by omega) hjblocked
      exact hmid.append (hlow' j (by omega) (hjblocked.append hmid))

/-- A search ends behind a tower that is before the place and in front of one that is
not. -/
lemma search_spec (hreads : Reads before test) (h : Woven zsl ts) :
    ∃ as rest update, ts = as ++ rest ∧ search zsl before = some update ∧
    update.length = zsl.level ∧ Fingers zsl.header as zsl.level update ∧ Reached test as ∧
    ∀ t ∈ rest.head?, test (as.length + 1) t = false := by
  obtain ⟨as, rest, update, rfl, hsearch, hlen, hfingers, hreached, hblocked, _⟩ :=
    searchFrom_spec hreads (le_refl zsl.level) (show Woven zsl ([] ++ ts) from h) h.level_le
      (by simp [Reached])
  refine ⟨as, rest, update, rfl, hsearch, hlen, hfingers, hreached, ?_⟩
  intro t ht
  cases rest with
  | nil => cases ht
  | cons t' rest =>
    cases ht
    have hpos := (h.heights t (by simp)).1
    have := hblocked 0 h.level_pos t (above_cons_high hpos rest)
    rwa [dist_cons_high hpos] at this

section Level

variable {header : Ptr} {as old new : List (Tower S)} {i : Nat} {entry : Ptr × Nat}
  {link link' : Ptr → Option (Link Ptr)}

lemma linkedSpots_behind (h : LinkedSpots i link (chain header (as ++ old))) :
    LinkedSpots i link (old.map Tower.spot) := by
  rw [chain_append] at h
  exact h.of_append

lemma map_above_spot (i : Nat) (ts : List (Tower S)) :
    (above Prod.snd i (ts.map Tower.spot)).map Prod.fst =
    (above Tower.height i ts).map Tower.ptr := by
  rw [above_map, Option.map_map]
  rfl

lemma dist_spot (i : Nat) (ts : List (Tower S)) :
    dist Prod.snd i (ts.map Tower.spot) = dist Tower.height i ts := dist_map ..

lemma Finger.mem (h : Finger header as i entry) : entry.1 ∈ (chain header as).map Prod.fst := by
  obtain ⟨cs, u, ds, hchain, _, _, rfl⟩ := h
  simp [hchain]

lemma length_of_chain {cs ds : List (Ptr × Nat)} {u : Ptr × Nat}
    (h : chain header as = cs ++ u :: ds) : as.length - cs.length = ds.length := by
  have := congrArg length h
  simp only [chain, length_cons, length_map, length_append] at this
  omega

section

variable (h : Finger header as i entry) (hlinks : LinkedSpots i link (chain header (as ++ old)))

include h hlinks

lemma Finger.link_eq : link entry.1 = some ⟨(above Tower.height i old).map Tower.ptr,
    as.length - entry.2 + dist Tower.height i old⟩ := by
  obtain ⟨cs, u, ds, hchain, hu, hlow, rfl⟩ := h
  rw [chain_append, hchain, append_assoc, cons_append] at hlinks
  rw [hlinks.link_eq hu, above_append_low hlow, dist_append_low hlow, map_above_spot, dist_spot,
    length_of_chain hchain]

/-- What follows the towers of `as` is replaced. -/
lemma Finger.splice (hnodup : ((chain header as).map Prod.fst).Nodup)
    (hframe : ∀ p ∈ (chain header as).map Prod.fst, p ≠ entry.1 → link' p = link p)
    (hlink : link' entry.1 = some ⟨(above Tower.height i new).map Tower.ptr,
    as.length - entry.2 + dist Tower.height i new⟩)
    (hnew : LinkedSpots i link' (new.map Tower.spot)) :
    LinkedSpots i link' (chain header (as ++ new)) := by
  obtain ⟨cs, u, ds, hchain, hu, hlow, rfl⟩ := h
  rw [chain_append, hchain, append_assoc] at hlinks ⊢
  rw [hchain, map_append, nodup_append] at hnodup
  refine hlinks.splice hu hlow ?_ ?_ hnew
  · intro c hc
    apply hframe
    · rw [hchain]
      simp only [map_append, mem_append]
      exact .inl (mem_map_of_mem hc)
    · exact hnodup.2.2 _ (mem_map_of_mem hc) _ (mem_cons_self ..)
  · rw [hlink, map_above_spot, dist_spot, length_of_chain hchain]

end

lemma Finger.zero (h : Finger header as 0 entry) (hpos : ∀ t ∈ as, 0 < t.height) :
    entry = ((tip header as).1, as.length) := by
  obtain ⟨cs, u, ds, hchain, _, hlow, rfl⟩ := h
  obtain ⟨pre, hpre, hlen⟩ := chain_eq_tip header as
  have hds : ds = [] := by
    cases ds with
    | nil => rfl
    | cons d ds =>
      have hzero := hlow d (mem_cons_self ..)
      have hd : d ∈ chain header as := by simp [hchain]
      rcases mem_cons.mp hd with rfl | hd
      · simp [zskiplistMaxlevel] at hzero
      obtain ⟨t, ht, rfl⟩ := mem_map.mp hd
      have := hpos t ht
      have hheight : t.height ≤ 0 := hzero
      omega
  rw [hds, hpre] at hchain
  obtain ⟨rfl, hu⟩ := append_inj' hchain rfl
  rw [← head_eq_of_cons_eq hu, hlen]

/-- On a level that no tower reaches it is the header. -/
lemma finger_header (hi : i < zskiplistMaxlevel) (hlow : Low Tower.height i as) :
    Finger header as i (header, 0) := by
  refine ⟨[], (header, zskiplistMaxlevel), as.map Tower.spot, rfl, hi, ?_, rfl⟩
  intro spot hspot
  obtain ⟨t, ht, rfl⟩ := mem_map.mp hspot
  exact hlow t ht

lemma above_zero (hpos : ∀ t ∈ ts, 0 < t.height) : above Tower.height 0 ts = ts.head? := by
  cases ts with
  | nil => rfl
  | cons t ts => exact above_cons_high (hpos t (mem_cons_self ..)) ts

/-- On level 0 the link of a tower leads to the next one. -/
lemma link_behind {x : Tower S} (h : LinkedSpots 0 link (chain header (as ++ x :: old)))
    (hpos : ∀ t ∈ x :: old, 0 < t.height) :
    link x.ptr = some ⟨old.head?.map Tower.ptr, dist Tower.height 0 old⟩ := by
  rw [← above_zero fun t ht => hpos t (mem_cons_of_mem _ ht), ← map_above_spot, ← dist_spot]
  exact (linkedSpots_behind h).1 (hpos x (mem_cons_self ..))

end Level

lemma Woven.link_zero {rest : List (Tower S)} {x : Tower S} (h : Woven zsl (as ++ x :: rest)) :
    zsl.getLevel x.ptr 0 = some ⟨rest.head?.map Tower.ptr, dist Tower.height 0 rest⟩ :=
  link_behind (h.links 0 h.level_pos) fun t ht => (h.heights t (mem_append_right _ ht)).1

end Dice.Ports.SkiplistSearch
