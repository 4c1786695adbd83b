import Mathlib.Data.List.DropRight
import Dice.Ports.AofLoad

/-!
# What a damaged append only file gives

A file that was cut at any byte is a preamble, complete commands and
annotations, and a part of the next one.  The reader sees through the complete
ones; a part of a command is always a short read, so the file is cut back to
the last good command.  Three cuts are not handled: a part of an annotation is
taken for a whole one and left in the file, a part of a command inside a
transaction leaves the beginning of the transaction in the file, and before the
first command the offset to cut at is 0, preamble or not.
-/

namespace Dice.Ports.AofRecovery

open List Verified.CString NumberParsing Resp AofLoad Nat Option

variable {n : Nat} {part preamble : Bytes} {unixtime : Int} {env : LoadEnv}

/-- The first digit of a positive number is not 0, so what is left of the number
is positive. -/
lemma strtollDigits_part (hpos : 0 < n) (hn : n ≤ ullongMax)
    (hne : part ≠ []) (hpart : part <+: decimal n) :
    0 < strtollDigits 0 part ∧ strtollDigits 0 part ≤ n := by
  obtain ⟨tail, htail⟩ := hpart
  have hdigits : ∀ x ∈ part, isDigit x := fun x hx =>
    isDigit_of_mem_decimal (n := n) (by rw [← htail]; exact mem_append_left _ hx)
  constructor
  · cases part with
    | nil => exact absurd rfl hne
    | cons c part =>
      have hmag := string2llMagnitude_decimal hpos hn
      rw [← htail, cons_append, string2llMagnitude] at hmag
      have hc : (49 ≤ c && c ≤ 57) := by
        by_contra hc
        rw [if_neg hc] at hmag
        cases hmag
      have hvalue : ∀ c : UInt8, (49 ≤ c && c ≤ 57) → 0 < digitValue c :=
        forall_byte (by decide +kernel)
      rw [strtollDigits, if_pos (hdigits c (by simp))]
      have hle := le_strtollDigits (0 * 10 + digitValue c) part
      have := hvalue c hc
      omega
  · have hle := le_strtollDigits (strtollDigits 0 part) tail
    rw [← strtollDigits_append hdigits, htail, strtollDigits_decimal] at hle
    exact hle

/-- A number as it stands in a line: whole, with the line end behind it. -/
lemma atoll_decimal (hn : n ≤ llongMax) {rest : Bytes}
    (hrest : ∀ c ∈ rest.head?, isDigit c = false) : atoll (decimal n ++ rest) = n := by
  have hvalue := strtollDigits_decimal n
  rw [atoll_digits rest (decimal_ne_nil n) (fun _ h => isDigit_of_mem_decimal h) hrest
    (by rw [hvalue]; exact hn), hvalue]

lemma atoi_of_atoll {s : Bytes} (h : atoll s = n) (hn : n < 2 ^ 31) : atoi s = n := by
  unfold atoi
  omega

/-- A command the writer may be given: it has a name, and its lengths fit the
types of the source. -/
def ArgvOk (argv : List Bytes) : Prop :=
  argv ≠ [] ∧ argv.length < 2 ^ 31 ∧ ∀ a ∈ argv, a.length ≤ llongMax

lemma newline_notMem_decimal (n : Nat) : (10 : UInt8) ∉ decimal n := fun hmem =>
  absurd (isDigit_of_mem_decimal hmem) (by decide)

lemma llongMax_le_ullongMax : llongMax ≤ ullongMax := by decide

lemma takeLine_header (mark : UInt8) (hmark : mark ≠ 10) (hn : n ≤ ullongMax) (rest : Bytes) :
    takeLine lineMax (header mark n ++ rest) = (mark :: (decimal n ++ crlf), rest) := by
  have hlen := length_decimal_lt hn
  have hbody : (10 : UInt8) ∉ mark :: (decimal n ++ [13]) := by
    have := newline_notMem_decimal n
    simp [hmark.symm, this]
  have hline := takeLine_line lineMax hbody (by
    simp only [length_cons, length_append, length_nil, longStrSize, lineMax] at hlen ⊢
    omega) rest
  rw [header]
  simpa [crlf] using hline

lemma readArgs_bulk {a : Bytes} (ha : a.length ≤ llongMax) (argc : Nat) (argv : List Bytes)
    (rest : Bytes) :
    readArgs (argc + 1) argv (bulk a ++ rest) = readArgs argc (argv ++ [a]) rest := by
  have hlen : atoll (decimal a.length ++ crlf) = a.length :=
    atoll_decimal ha (by simp [crlf, isDigit])
  have htake := takeLine_header 36 (by decide)
    (le_trans ha llongMax_le_ullongMax) (a ++ crlf ++ rest)
  have hne : (bulk a ++ rest).isEmpty = false := rfl
  rw [readArgs, hne, if_neg (by decide)]
  rw [bulk, append_assoc, append_assoc, ← append_assoc a crlf, htake]
  simp only [head?_cons, tail_cons, hlen, ne_eq, not_true_eq_false, if_false]
  rw [if_neg (by omega), if_neg (by simp), if_neg (by simp [crlf])]
  simp [crlf]

lemma readArgs_args {args : List Bytes} (hargs : ∀ a ∈ args, a.length ≤ llongMax)
    (argv : List Bytes) (rest : Bytes) :
    readArgs args.length argv (encodeArgs args ++ rest) = .command (argv ++ args) rest := by
  induction args generalizing argv with
  | nil => simp [readArgs]
  | cons a args ih =>
    rw [encodeArgs_cons, append_assoc, length_cons,
      readArgs_bulk (hargs a (by simp)), ih fun a' ha' => hargs a' (by simp [ha'])]
    simp

lemma argc_spec {argv : List Bytes} (h : ArgvOk argv) :
    argv.length ≤ llongMax ∧ atoi (decimal argv.length ++ crlf) = argv.length ∧
    (decimal argv.length ++ crlf).headD 0 ≠ 0 := by
  have hsmall : argv.length ≤ llongMax := by
    unfold llongMax
    have := h.2.1
    omega
  refine ⟨hsmall, atoi_of_atoll (atoll_decimal hsmall (by simp [crlf, isDigit])) h.2.1, ?_⟩
  cases hd : decimal argv.length with
  | nil => exact absurd hd (decimal_ne_nil _)
  | cons c digits =>
    have hzero : ∀ c, isDigit c → c ≠ 0 := forall_byte (by decide +kernel)
    exact hzero c (isDigit_of_mem_decimal (n := argv.length) (by simp [hd]))

lemma readCommand_command {argv : List Bytes} (h : ArgvOk argv) (rest : Bytes) :
    readCommand (encodeCommand argv ++ rest) = .command argv rest := by
  obtain ⟨hsmall, hargcValue, hhead⟩ := argc_spec h
  obtain ⟨hne, hargc, hargs⟩ := h
  have htake := takeLine_header 42 (by decide)
    (le_trans hsmall llongMax_le_ullongMax) (encodeArgs argv ++ rest)
  have hpos := length_pos_iff.mpr hne
  have hinput : (encodeCommand argv ++ rest).isEmpty = false := rfl
  rw [readCommand, hinput, if_neg (by decide), encodeCommand, append_assoc, htake]
  simp only [head?_cons, tail_cons, hargcValue]
  rw [if_neg (by decide), if_neg (by simp), if_neg hhead, if_neg (by omega), Int.toNat_natCast,
    readArgs_args hargs]
  rfl

/-- Either the whole first part is there, or only a piece of it. -/
lemma prefix_append_cases {q x y : Bytes} (h : q <+: x ++ y) :
    (∃ q', q = x ++ q' ∧ q' <+: y) ∨ q <+: x ∧ q.length < x.length := by
  rcases lt_or_ge q.length x.length with hlt | hge
  · exact .inr ⟨prefix_of_prefix_length_le h (prefix_append x y) (by omega), hlt⟩
  · obtain ⟨q', rfl⟩ := prefix_of_prefix_length_le (prefix_append x y) h hge
    exact .inl ⟨q', rfl, (prefix_append_right_inj x).mp h⟩

lemma takeLine_part {line : Bytes} (hline : (10 : UInt8) ∉ line)
    (hlen : line.length ≤ lineMax) (hpart : part <+: line ++ [10])
    (hlt : part.length < (line ++ [10]).length) : takeLine lineMax part = (part, []) := by
  rw [length_append, length_singleton] at hlt
  have hinitial : part <+: line := prefix_of_prefix_length_le hpart (prefix_append _ _) (by omega)
  apply takeLine_short
  · exact fun hmem => hline (hinitial.subset hmem)
  · have := hinitial.length_le
    omega

lemma takeLine_partHeader {mark : UInt8} (hmark : mark ≠ 10)
    (hn : n ≤ ullongMax) (hpart : part <+: header mark n)
    (hlt : part.length < (header mark n).length) : takeLine lineMax part = (part, []) := by
  have hline : header mark n = mark :: (decimal n ++ [13]) ++ [10] := by simp [header, crlf]
  have hdecimal := length_decimal_lt hn
  rw [hline] at hpart hlt
  apply takeLine_part _ _ hpart hlt
  · have := newline_notMem_decimal n
    simp [hmark.symm, this]
  · simp only [length_cons, length_append, length_nil, longStrSize, lineMax] at hdecimal ⊢
    omega

lemma atoll_nonneg {s : Bytes} (h : (45 : UInt8) ∉ s) : 0 ≤ atoll s := by
  have hsuffix : ∀ rest, s.dropWhile isspace ≠ 45 :: rest := by
    intro rest heq
    apply h
    have hmem : (45 : UInt8) ∈ s.dropWhile isspace := by simp [heq]
    exact (dropWhile_suffix _).subset hmem
  have hclamp : ∀ v : Int, 0 ≤ v → 0 ≤ max (-(2 ^ 63)) (min v llongMax) := by
    intro v hv
    omega
  apply hclamp
  split
  next heq => exact absurd heq (hsuffix _)
  · omega
  · omega

/-- What is left of a positive number is positive and not above it. -/
lemma atoll_part (hpos : 0 < n) (hn : n ≤ llongMax)
    (hne : part ≠ []) (hpart : part <+: decimal n ++ crlf) :
    ∃ v : Nat, 0 < v ∧ v ≤ n ∧ atoll part = v := by
  rcases prefix_append_cases hpart with ⟨q, rfl, hq⟩ | ⟨hinitial, _⟩
  · refine ⟨n, hpos, le_refl n, atoll_decimal hn ?_⟩
    intro c hc
    cases q with
    | nil => cases hc
    | cons d q =>
      obtain ⟨tail, htail⟩ := hq
      cases hc
      rw [(cons.inj htail).1]
      rfl
  · obtain ⟨hv, hle⟩ := strtollDigits_part hpos (le_trans hn llongMax_le_ullongMax) hne hinitial
    have hread := atoll_digits [] hne
      (fun x hx => isDigit_of_mem_decimal (hinitial.subset hx)) (by simp) (by omega)
    rw [append_nil] at hread
    exact ⟨_, hv, hle, hread⟩

/-- Whatever is left of an argument, it is a short read. -/
lemma readArgs_partBulk {a : Bytes} (ha : a.length ≤ llongMax) (hpart : part <+: bulk a)
    (hlt : part.length < (bulk a).length) (argc : Nat) (argv : List Bytes) :
    readArgs (argc + 1) argv part = .shortRead := by
  have hu := le_trans ha llongMax_le_ullongMax
  rw [bulk, append_assoc] at hpart hlt
  cases part with
  | nil => rfl
  | cons c part =>
    rcases prefix_append_cases hpart with ⟨q, hq, hinitial⟩ | ⟨hinitial, hshort⟩
    · -- the length is there
      have hlen : atoll (decimal a.length ++ crlf) = a.length :=
        atoll_decimal ha (by simp [crlf, isDigit])
      rw [hq, length_append, length_append] at hlt
      have hcrlf : (a ++ crlf).length = a.length + 2 := by simp [crlf]
      rw [hq, readArgs, takeLine_header 36 (by decide) hu]
      simp only [head?_cons, tail_cons, hlen, ne_eq, not_true_eq_false, if_false]
      rw [if_neg (by simp [header]), if_neg (by omega)]
      split
      · rfl
      · rw [if_pos]
        rw [length_drop]
        omega
    · -- the line breaks off, and nothing follows it
      have htake := takeLine_partHeader (by decide) hu hinitial hshort
      obtain ⟨tail, htail⟩ := hinitial
      have hc : c = 36 := (cons.inj htail).1
      have hpos : ¬ atoll part < 0 := by
        have hminus : (45 : UInt8) ∉ part := by
          intro hmem
          have hmem' : (45 : UInt8) ∈ decimal a.length ++ crlf := by
            rw [← (cons.inj htail).2]
            exact mem_append_left _ hmem
          rcases mem_append.mp hmem' with hmem' | hmem'
          · exact absurd (isDigit_of_mem_decimal hmem') (by decide)
          · exact absurd hmem' (by decide)
        have := atoll_nonneg hminus
        omega
      rw [readArgs, htake]
      simp only [tail_cons, hc]
      split
      · rfl
      · simp

lemma readArgs_part {args : List Bytes}
    (hargs : ∀ a ∈ args, a.length ≤ llongMax) (hpart : part <+: encodeArgs args)
    (hlt : part.length < (encodeArgs args).length) (argv : List Bytes) :
    readArgs args.length argv part = .shortRead := by
  induction args generalizing part argv with
  | nil => simp at hlt
  | cons a args ih =>
    have ha := hargs a (by simp)
    rw [encodeArgs_cons] at hpart hlt
    rw [length_cons]
    rcases prefix_append_cases hpart with ⟨q, rfl, hq⟩ | ⟨hinitial, hshort⟩
    · rw [length_append, length_append] at hlt
      rw [readArgs_bulk ha]
      exact ih (fun a' ha' => hargs a' (by simp [ha'])) hq (by omega) _
    · exact readArgs_partBulk ha hinitial hshort _ _

/-- A piece of a command is a short read, wherever it breaks off. -/
lemma readCommand_part {argv : List Bytes} (h : ArgvOk argv) (hne : part ≠ [])
    (hpart : part <+: encodeCommand argv) (hlt : part.length < (encodeCommand argv).length) :
    readCommand part = .shortRead := by
  obtain ⟨hsmall, hargcValue, hhead⟩ := argc_spec h
  obtain ⟨hargv, hargc, hargs⟩ := h
  have hpos := length_pos_iff.mpr hargv
  have hu := le_trans hsmall llongMax_le_ullongMax
  have hdigit : ∀ c, isDigit c → c ≠ 0 := forall_byte (by decide +kernel)
  rw [encodeCommand] at hpart hlt
  rcases prefix_append_cases hpart with ⟨q, rfl, hq⟩ | ⟨hinitial, hshort⟩
  · -- the number of arguments is there
    rw [length_append, length_append] at hlt
    rw [readCommand, takeLine_header 42 (by decide) hu]
    simp only [head?_cons, tail_cons, hargcValue]
    rw [if_neg (by simp [header]), if_neg (by decide), if_neg (by simp), if_neg hhead,
      if_neg (by omega)]
    exact readArgs_part hargs hq (by omega) []
  have htake := takeLine_partHeader (by decide) hu hinitial hshort
  cases part with
  | nil => exact absurd rfl hne
  | cons c part =>
    obtain ⟨tail, htail⟩ := hinitial
    have hc : c = 42 := (cons.inj htail).1
    have hrest : part <+: decimal argv.length ++ crlf := ⟨tail, (cons.inj htail).2⟩
    rw [readCommand, htake]
    simp only [head?_cons, tail_cons, hc]
    rw [if_neg (by simp), if_neg (by decide), if_neg (by simp)]
    cases part with
    | nil => rfl
    | cons d part =>
      obtain ⟨v, hv, hle, hvalue⟩ := atoll_part hpos hsmall (by simp) hrest
      have hd : d ≠ 0 := by
        have hmem : d ∈ decimal argv.length ++ crlf := hrest.subset (by simp)
        rcases mem_append.mp hmem with hmem | hmem
        · exact hdigit d (isDigit_of_mem_decimal hmem)
        · rintro rfl
          exact absurd hmem (by decide)
      have hargcPart := atoi_of_atoll hvalue (by omega)
      have hsucc : ∃ k, v = k + 1 := ⟨v - 1, by omega⟩
      obtain ⟨k, rfl⟩ := hsucc
      rw [if_neg (by simpa using hd), hargcPart]
      rfl

/-! ## Files -/

/-- What stands in a file after the preamble. -/
inductive Item
  | command (argv : List Bytes)
  | annotationLine (unixtime : Int)
  deriving DecidableEq, Repr

def Item.isCommand : Item → Bool
  | .command _ => true
  | .annotationLine _ => false

def Item.encode : Item → Bytes
  | .command argv => encodeCommand argv
  | .annotationLine unixtime => timestampLine unixtime

/-- The items as they are appended one after the other. -/
def encodeItems (items : List Item) : Bytes := items.flatMap Item.encode

/-- What the writer may be given. -/
def Item.Ok : Item → Prop
  | .command argv => ArgvOk argv
  | .annotationLine unixtime => -(2 ^ 63 : Int) ≤ unixtime ∧ unixtime ≤ (llongMax : Int)

lemma encodeItems_append (xs ys : List Item) :
    encodeItems (xs ++ ys) = encodeItems xs ++ encodeItems ys := by
  simp [encodeItems]

lemma encodeItems_cons (x : Item) (xs : List Item) :
    encodeItems (x :: xs) = x.encode ++ encodeItems xs := rfl

lemma annotation_eq (unixtime : Int) :
    timestampLine unixtime = 35 :: (ofString "TS:" ++ decimalInt unixtime ++ [13]) ++ [10] := by
  simp [timestampLine, ofString, crlf]

section

variable (h : (Item.annotationLine unixtime).Ok)

include h

lemma annotation_line : (10 : UInt8) ∉ 35 :: (ofString "TS:" ++ decimalInt unixtime ++ [13]) ∧
      (35 :: (ofString "TS:" ++ decimalInt unixtime ++ [13])).length < lineMax := by
  have hlen := length_decimalInt_lt h.1 h.2
  have hdigit : ∀ c, isDigit c → c ≠ 10 := forall_byte (by decide +kernel)
  have hnew : (10 : UInt8) ∉ decimalInt unixtime := fun hmem =>
    of_mem_decimalInt (P := (· ≠ 10)) (by decide) hdigit hmem rfl
  constructor
  · simp [ofString, hnew]
  · have hts : (ofString "TS:").length = 3 := rfl
    simp only [length_cons, length_append, length_nil, longStrSize, lineMax] at hlen ⊢
    omega

lemma readCommand_annotationLine (rest : Bytes) :
    readCommand (timestampLine unixtime ++ rest) = .annotationLine rest := by
  obtain ⟨hline, hlen⟩ := annotation_line h
  have htake := takeLine_line lineMax hline hlen rest
  rw [annotation_eq, append_assoc, singleton_append, readCommand, htake]
  rfl

lemma readCommand_partLine (hne : part ≠ []) (hpart : part <+: timestampLine unixtime)
    (hlt : part.length < (timestampLine unixtime).length) :
    readCommand part = .annotationLine [] := by
  obtain ⟨hline, hlen⟩ := annotation_line h
  rw [annotation_eq] at hpart hlt
  have htake := takeLine_part hline (by omega) hpart hlt
  cases part with
  | nil => exact absurd rfl hne
  | cons c part =>
    obtain ⟨tail, htail⟩ := hpart
    have hc : c = 35 := (cons.inj htail).1
    rw [readCommand, htake, hc]
    rfl

end

/-- The items that are complete within the first `size` bytes. -/
def complete : Nat → List Item → List Item
  | _, [] => []
  | size, x :: xs =>
    if x.encode.length ≤ size then x :: complete (size - x.encode.length) xs else []

/-- A file that was cut: complete items, and a piece of the next one or nothing. -/
lemma prefix_items {items : List Item} {file : Bytes} (h : file <+: encodeItems items) :
    ∃ later piece, items = complete file.length items ++ later ∧
    file = encodeItems (complete file.length items) ++ piece ∧
    (piece = [] ∨ ∃ y ∈ later.head?, piece ≠ [] ∧ piece <+: y.encode ∧
      piece.length < y.encode.length) := by
  induction items generalizing file with
  | nil =>
    have hnil : file = [] := prefix_nil.mp h
    exact ⟨[], [], rfl, hnil, .inl rfl⟩
  | cons x items ih =>
    rcases prefix_append_cases h with ⟨q, rfl, hq⟩ | ⟨hinitial, hshort⟩
    · obtain ⟨later, piece, hitems, hfile, hpiece⟩ := ih hq
      have hcomplete : complete (x.encode ++ q).length (x :: items) =
        x :: complete q.length items := by
        rw [complete, length_append, if_pos (by omega), Nat.add_sub_cancel_left]
      refine ⟨later, piece, ?_, ?_, hpiece⟩
      · rw [hcomplete, cons_append, ← hitems]
      · rw [hcomplete, encodeItems_cons, append_assoc, ← hfile]
    · have hcomplete : complete file.length (x :: items) = [] := by rw [complete, if_neg (by omega)]
      refine ⟨x :: items, file, by rw [hcomplete]; rfl, by rw [hcomplete]; rfl, ?_⟩
      by_cases hnil : file = []
      · exact .inl hnil
      · exact .inr ⟨x, rfl, hnil, hinitial, hshort⟩

/-! ### Transactions -/

/-- Whether a transaction is open after an item; a command that is not known, a
nested `MULTI` and a stray `EXEC` have no successor. -/
def groupStep (env : LoadEnv) (inGroup : Bool) : Item → Option Bool
  | .annotationLine _ => some inGroup
  | .command argv =>
    match env.lookupCommand argv, inGroup with
    | some .multi, false => some true
    | some .exec, true => some false
    | some .other, inGroup => some inGroup
    | _, _ => none

/-- Whether a transaction is open at the end, if the groups are well formed. -/
def groups (env : LoadEnv) (items : List Item) : Option Bool := items.foldlM (groupStep env) false

/-- The items outside an unfinished group, and the unfinished group. -/
structure Parts where
  closed : List Item := []
  pending : Option (List Item) := none

def partStep (env : LoadEnv) (p : Parts) (x : Item) : Parts :=
  let kind :=
    match x with
    | .command argv => env.lookupCommand argv
    | .annotationLine _ => none
  match p.pending with
  | none =>
    if kind = some .multi then { p with pending := some [x] }
    else { p with closed := p.closed ++ [x] }
  | some group =>
    if kind = some .exec then { closed := p.closed ++ group ++ [x] }
    else { p with pending := some (group ++ [x]) }

def parts (env : LoadEnv) (items : List Item) : Parts := items.foldl (partStep env) {}

/-- The commands other than `MULTI` and `EXEC`. -/
def commands (env : LoadEnv) (items : List Item) : List (List Bytes) :=
  items.filterMap fun
    | .command argv => if env.lookupCommand argv = some .other then some argv else none
    | .annotationLine _ => none

/-- The items up to the last command. -/
def upToCommand (items : List Item) : List Item := items.rdropWhile fun x => !x.isCommand

/-- The offset behind the last command, 0 if there is none. -/
def commandsEnd (start : Nat) (items : List Item) : Nat :=
  if (upToCommand items).isEmpty then 0 else start + (encodeItems (upToCommand items)).length

section Items

variable {env : LoadEnv} {xs ys : List Item}

lemma groups_append (xs ys : List Item) :
    groups env (xs ++ ys) = (groups env xs).bind fun g => ys.foldlM (groupStep env) g := by
  rw [groups, foldlM_append]
  rfl

section

variable (xs : List Item) (x : Item)

lemma groups_snoc : groups env (xs ++ [x]) = (groups env xs).bind fun g => groupStep env g x := by
  rw [groups_append]
  cases groups env xs with
  | none => rfl
  | some g => simp

lemma parts_snoc : parts env (xs ++ [x]) = partStep env (parts env xs) x := by
  simp [parts]

lemma commands_append (xs ys : List Item) :
    commands env (xs ++ ys) = commands env xs ++ commands env ys := by
  simp [commands]

lemma commands_annotationLine (unixtime : Int) : commands env [.annotationLine unixtime] = [] := rfl

lemma commands_command (argv : List Bytes) : commands env [.command argv] =
    if env.lookupCommand argv = some .other then [argv] else [] := by
  unfold commands
  split <;> simp_all

lemma upToCommand_command (argv : List Bytes) :
    upToCommand (xs ++ [.command argv]) = xs ++ [.command argv] :=
  rdropWhile_concat_neg _ _ _ (by simp [Item.isCommand])

lemma upToCommand_annotationLine (unixtime : Int) :
    upToCommand (xs ++ [.annotationLine unixtime]) = upToCommand xs :=
  rdropWhile_concat_pos _ _ _ rfl

lemma upToCommand_initial : upToCommand xs <+: xs := rdropWhile_prefix _ _

end

lemma upToCommand_eq_nil : upToCommand xs = [] ↔ xs.any Item.isCommand = false := by
  simp [upToCommand]

/-- Annotations at the end change neither the commands nor the groups. -/
lemma upToCommand_spec (env : LoadEnv) (xs : List Item) :
    commands env (upToCommand xs) = commands env xs ∧
    groups env (upToCommand xs) = groups env xs := by
  induction xs using reverseRecOn with
  | nil => exact ⟨rfl, rfl⟩
  | append_singleton xs x ih =>
    cases x with
    | command argv =>
      rw [upToCommand_command]
      exact ⟨rfl, rfl⟩
    | annotationLine unixtime =>
      rw [upToCommand_annotationLine, commands_append, commands_annotationLine, append_nil,
        groups_snoc, ih.1, ih.2]
      cases groups env xs <;> exact ⟨rfl, rfl⟩

/-- How the loop state follows the items read so far. -/
structure Follows (env : LoadEnv) (start : Nat) (xs : List Item) (st : LoadState) : Prop where
  executed : st.executed = commands env (parts env xs).closed
  queued : st.queued = (parts env xs).pending.map (commands env)
  groupsAll : groups env xs = some (parts env xs).pending.isSome
  groupsClosed : groups env (parts env xs).closed = some false
  all : xs = (parts env xs).closed ++ (parts env xs).pending.getD []
  validUpTo : st.validUpTo = commandsEnd start xs
  validBeforeMulti : (parts env xs).pending.isSome →
    st.validBeforeMulti = commandsEnd start (parts env xs).closed

lemma follows_nil (start : Nat) : Follows env start [] {} := by
  constructor <;> simp [parts, commands, groups, commandsEnd, upToCommand]

lemma commandsEnd_annotationLine (start : Nat) (xs : List Item) (unixtime : Int) :
    commandsEnd start (xs ++ [.annotationLine unixtime]) = commandsEnd start xs := by
  rw [commandsEnd, commandsEnd, upToCommand_annotationLine]

lemma commandsEnd_command (start : Nat) (xs : List Item) (argv : List Bytes) :
    commandsEnd start (xs ++ [.command argv]) =
    start + (encodeItems (xs ++ [.command argv])).length := by
  rw [commandsEnd, upToCommand_command, if_neg (by simp)]

lemma groups_isSome_left (h : (groups env (xs ++ ys)).isSome) : (groups env xs).isSome := by
  rw [groups_append] at h
  cases hg : groups env xs with
  | none => simp [hg] at h
  | some g => rfl

section

variable {start : Nat} {st : LoadState}

/-- `Follows`, with the parts known. -/
lemma follows_of_parts {p : Parts} (hparts : parts env xs = p)
    (executed : st.executed = commands env p.closed)
    (queued : st.queued = p.pending.map (commands env))
    (groupsAll : groups env xs = some p.pending.isSome)
    (groupsClosed : groups env p.closed = some false) (all : xs = p.closed ++ p.pending.getD [])
    (validUpTo : st.validUpTo = commandsEnd start xs)
    (validBeforeMulti : p.pending.isSome → st.validBeforeMulti = commandsEnd start p.closed) :
    Follows env start xs st := by
  subst hparts
  exact ⟨executed, queued, groupsAll, groupsClosed, all, validUpTo, validBeforeMulti⟩

lemma follows_annotationLine (h : Follows env start xs st) (unixtime : Int) :
    Follows env start (xs ++ [.annotationLine unixtime]) st := by
  have hall := h.all
  have hgroups : groups env (xs ++ [.annotationLine unixtime]) = groups env xs := by
    rw [groups_snoc, h.groupsAll]
    rfl
  have hend := h.validUpTo.trans (commandsEnd_annotationLine start xs unixtime).symm
  cases hp : (parts env xs).pending with
  | none =>
    have hparts : parts env (xs ++ [.annotationLine unixtime]) =
      { closed := (parts env xs).closed ++ [.annotationLine unixtime] } := by
      simp [parts_snoc, partStep, hp]
    rw [hp] at hall
    refine follows_of_parts hparts ?_ ?_ ?_ ?_ (by simpa using hall) hend (by simp)
    · rw [commands_append, commands_annotationLine, append_nil, h.executed]
    · rw [h.queued, hp]
    · rw [hgroups, h.groupsAll, hp]
    · rw [groups_snoc, h.groupsClosed]
      rfl
  | some group =>
    have hparts : parts env (xs ++ [.annotationLine unixtime]) =
      { closed := (parts env xs).closed
        pending := some (group ++ [.annotationLine unixtime]) } := by
      simp [parts_snoc, partStep, hp]
    rw [hp] at hall
    refine follows_of_parts hparts h.executed ?_ ?_ h.groupsClosed ?_ hend ?_
    · rw [h.queued, hp, map_some, map_some, commands_append, commands_annotationLine, append_nil]
    · rw [hgroups, h.groupsAll, hp]
      rfl
    · simpa [← append_assoc] using hall
    · exact fun _ => h.validBeforeMulti (by rw [hp]; rfl)

/-- A command that fits the groups is run, or queued, and the state follows. -/
lemma follows_command (htrunc : env.aofLoadTruncated) (h : Follows env start xs st)
    {argv : List Bytes} (hgroups : (groups env (xs ++ [.command argv])).isSome) :
    ∃ st', runCommand env (start + (encodeItems (xs ++ [.command argv])).length) st argv =
    some st' ∧ Follows env start (xs ++ [.command argv]) st' := by
  have hall := h.all
  have hend := commandsEnd_command start xs argv
  rw [groups_snoc, h.groupsAll] at hgroups
  rw [← hend]
  have hsnoc : groups env (xs ++ [.command argv]) =
    groupStep env (parts env xs).pending.isSome (.command argv) := by
    rw [groups_snoc, h.groupsAll]
    rfl
  cases hkind : env.lookupCommand argv with
  | none => simp [groupStep, hkind] at hgroups
  | some kind =>
    cases hp : (parts env xs).pending with
    | none =>
      have hqueued : st.queued = none := by rw [h.queued, hp]; rfl
      rw [hp] at hall hsnoc
      have hxs : (parts env xs).closed = xs := by simpa using hall.symm
      cases kind with
      | multi =>
        have hparts : parts env (xs ++ [.command argv]) =
          { closed := (parts env xs).closed, pending := some [.command argv] } := by
          simp [parts_snoc, partStep, hp, hkind]
        refine ⟨{ st with
          queued := some []
          validBeforeMulti := st.validUpTo
          validUpTo := commandsEnd start (xs ++ [.command argv]) },
          by simp [runCommand, hkind, hqueued, htrunc], ?_⟩
        refine follows_of_parts hparts h.executed ?_ ?_ h.groupsClosed ?_ rfl fun _ => ?_
        · simp [commands_command, hkind]
        · simp [hsnoc, groupStep, hkind]
        · rw [hxs]
          rfl
        · rw [hxs]
          exact h.validUpTo
      | exec => simp [groupStep, hkind, hp] at hgroups
      | other =>
        have hparts : parts env (xs ++ [.command argv]) =
          { closed := (parts env xs).closed ++ [.command argv] } := by
          simp [parts_snoc, partStep, hp, hkind]
        refine ⟨{ st with
          executed := st.executed ++ [argv]
          validUpTo := commandsEnd start (xs ++ [.command argv]) },
          by simp [runCommand, hkind, hqueued, htrunc], ?_⟩
        refine follows_of_parts hparts ?_ hqueued ?_ ?_ (by simp [hxs]) rfl (by simp)
        · simp [commands_append, h.executed, commands_command, hkind]
        · simp [hsnoc, groupStep, hkind]
        · simp [groups_snoc, h.groupsClosed, groupStep, hkind]
    | some group =>
      have hqueued : st.queued = some (commands env group) := by rw [h.queued, hp]; rfl
      have hbefore := h.validBeforeMulti (by rw [hp]; rfl)
      rw [hp] at hall hsnoc
      cases kind with
      | multi => simp [groupStep, hkind, hp] at hgroups
      | exec =>
        have hparts : parts env (xs ++ [.command argv]) =
          { closed := (parts env xs).closed ++ group ++ [.command argv] } := by
          simp [parts_snoc, partStep, hp, hkind]
        have hclosed : (parts env xs).closed ++ group = xs := by simpa using hall.symm
        refine ⟨{ st with
          executed := st.executed ++ commands env group
          queued := none
          validUpTo := commandsEnd start (xs ++ [.command argv]) },
          by simp [runCommand, hkind, hqueued, htrunc], ?_⟩
        refine follows_of_parts hparts ?_ rfl ?_ ?_ (by simp [hclosed]) rfl (by simp)
        · simp [commands_append, h.executed, commands_command, hkind]
        · simp [hsnoc, groupStep, hkind]
        · simp [hclosed, hsnoc, groupStep, hkind]
      | other =>
        have hparts : parts env (xs ++ [.command argv]) =
          { closed := (parts env xs).closed
            pending := some (group ++ [.command argv]) } := by
          simp [parts_snoc, partStep, hp, hkind]
        refine ⟨{ st with
          queued := some (commands env group ++ [argv])
          validUpTo := commandsEnd start (xs ++ [.command argv]) },
          by simp [runCommand, hkind, hqueued, htrunc], ?_⟩
        refine follows_of_parts hparts h.executed ?_ ?_ h.groupsClosed ?_ rfl fun _ => hbefore
        · simp [commands_append, commands_command, hkind]
        · simp [hsnoc, groupStep, hkind]
        · simpa [← append_assoc] using hall

end

/-- The loop reads the items in front of what is left. -/
lemma loadLoop_items (htrunc : env.aofLoadTruncated) (start size : Nat) (rest : Bytes)
    (hys : ∀ y ∈ ys, y.Ok) :
    ∀ xs st fuel, Follows env start xs st → (groups env (xs ++ ys)).isSome →
    (encodeItems ys ++ rest).length < fuel →
    size = start + (encodeItems (xs ++ ys)).length + rest.length →
    ∃ st' fuel', Follows env start (xs ++ ys) st' ∧ rest.length < fuel' ∧
      loadLoop env size fuel st (encodeItems ys ++ rest) = loadLoop env size fuel' st' rest := by
  induction ys with
  | nil =>
    intro xs st fuel h _ hfuel _
    exact ⟨st, fuel, by simpa using h, hfuel, rfl⟩
  | cons y ys ih =>
    intro xs st fuel h hgroups hfuel hsize
    obtain ⟨fuel, rfl⟩ : ∃ n, fuel = n + 1 := ⟨fuel - 1, by omega⟩
    have hy := hys y (by simp)
    have hcons : xs ++ y :: ys = (xs ++ [y]) ++ ys := by simp
    have hinput : encodeItems (y :: ys) ++ rest = y.encode ++ (encodeItems ys ++ rest) := by
      rw [encodeItems_cons, append_assoc]
    rw [hinput, length_append] at hfuel
    rw [hcons] at hgroups hsize ⊢
    rw [hinput]
    have ih := ih fun y' hy' => hys y' (by simp [hy'])
    cases y with
    | annotationLine unixtime =>
      have hpos : 0 < (Item.annotationLine unixtime).encode.length := by
        simp [Item.encode, annotation_eq]
      rw [loadLoop, Item.encode, readCommand_annotationLine hy]
      exact ih _ st fuel (follows_annotationLine h unixtime) hgroups (by omega) hsize
    | command argv =>
      have hpos : 0 < (Item.command argv).encode.length := by
        simp [Item.encode, encodeCommand, header]
      obtain ⟨st', hrun, hfollows⟩ := follows_command htrunc h (groups_isSome_left hgroups)
      have hoffset : size - (encodeItems ys ++ rest).length =
        start + (encodeItems (xs ++ [.command argv])).length := by
        rw [encodeItems_append, length_append] at hsize
        rw [length_append]
        omega
      rw [loadLoop, Item.encode, readCommand_command hy]
      simp only [hoffset, hrun]
      exact ih _ st' fuel hfollows hgroups (by omega) hsize

end Items

/-! ## Recovery -/

/-- An RDB preamble: it has the signature, and the RDB loader takes it and
nothing of what follows. -/
def IsPreamble (env : LoadEnv) (preamble : Bytes) : Prop :=
  preamble = [] ∨ preamble.take 5 = ofString "REDIS" ∧
    ∀ rest, env.rdbLoadRio (preamble ++ rest) = some preamble.length

section Load

variable {env : LoadEnv} {preamble piece : Bytes} {xs : List Item}

lemma head_encode (x : Item) : x.encode.head? = some 42 ∧ x.isCommand ∨
    x.encode.head? = some 35 ∧ x.isCommand = false := by
  cases x with
  | command argv => exact .inl ⟨rfl, rfl⟩
  | annotationLine unixtime =>
    right
    exact ⟨rfl, rfl⟩

lemma head_of_initial {x : Item} (hne : part ≠ []) (h : part <+: x.encode) :
    part.head? = x.encode.head? := by
  obtain ⟨tail, htail⟩ := h
  cases part with
  | nil => exact absurd rfl hne
  | cons c part => rw [← htail]; rfl

lemma commandsStart_eq (hP : IsPreamble env preamble) (piece : Bytes)
    (hhead : ∀ c ∈ piece.head?, c = 42 ∨ c = 35) (rest : List Item) :
    commandsStart env (preamble ++ (encodeItems rest ++ piece)) = some preamble.length := by
  unfold commandsStart
  rcases hP with rfl | ⟨hsig, hload⟩
  · rw [if_neg]
    · rfl
    have hfirst : ∀ c ∈ (encodeItems rest ++ piece).head?, c = 42 ∨ c = 35 := by
      cases rest with
      | nil => exact hhead
      | cons x rest =>
        rw [encodeItems_cons]
        rcases head_encode x with ⟨h, _⟩ | ⟨h, _⟩ <;> simp [h]
    intro heq
    have hR : (encodeItems rest ++ piece).head? = some 82 := by
      have hfive := congrArg head? heq
      rwa [head?_take] at hfive
    rcases hfirst 82 hR with h | h <;> exact absurd h (by decide)
  · have hlen : 5 ≤ preamble.length := by
      have h := congrArg length hsig
      rw [length_take, show (ofString "REDIS").length = 5 from rfl] at h
      omega
    rw [take_append_of_le_length hlen, if_pos hsig, hload]

/-- How the loop ends on a file that was cut. -/
lemma loadLoop_cut (htrunc : env.aofLoadTruncated) (hxs : ∀ x ∈ xs, x.Ok)
    (hgroups : (groups env xs).isSome) (preamble piece : Bytes)
    (hpiece : piece = [] ∨ ∃ y : Item, y.Ok ∧ piece ≠ [] ∧ piece <+: y.encode ∧
    piece.length < y.encode.length) :
    let file := preamble ++ (encodeItems xs ++ piece)
    ∃ st, Follows env preamble.length xs st ∧
    loadLoop env file.length (file.length + 1) {} (encodeItems xs ++ piece) =
      (st, if piece.head? = some 42 then .shortRead else .endOfFile) := by
  intro file
  obtain ⟨st, fuel, hfollows, hfuel, hloop⟩ := loadLoop_items htrunc preamble.length
    file.length piece hxs [] {} (file.length + 1) (follows_nil _) hgroups
    (by simp only [file, length_append]; omega)
    (by simp only [file, length_append, nil_append]; omega)
  refine ⟨st, by simpa using hfollows, ?_⟩
  rw [hloop]
  obtain ⟨fuel, rfl⟩ : ∃ n, fuel = n + 1 := ⟨fuel - 1, by omega⟩
  rcases hpiece with rfl | ⟨y, hy, hne, hinitial, hlt⟩
  · rfl
  rw [head_of_initial hne hinitial]
  cases y with
  | command argv =>
    rw [loadLoop, readCommand_part hy hne hinitial hlt]
    rfl
  | annotationLine unixtime =>
    obtain ⟨fuel, rfl⟩ : ∃ n, fuel = n + 1 := by
      have := length_pos_iff.mpr hne
      exact ⟨fuel - 1, by omega⟩
    rw [loadLoop, readCommand_partLine hy hne hinitial hlt, Item.encode]
    rfl

/-- Cutting behind the last command of some of the items. -/
lemma take_commandsEnd {ys : List Item} (hys : ys <+: xs) :
    (preamble ++ (encodeItems xs ++ piece)).take (commandsEnd preamble.length ys) =
    if (upToCommand ys).isEmpty then [] else preamble ++ encodeItems (upToCommand ys) := by
  unfold commandsEnd
  split
  · rfl
  · obtain ⟨later, hlater⟩ := (upToCommand_initial ys).trans hys
    rw [← hlater, encodeItems_append, append_assoc, ← append_assoc preamble,
      ← length_append, take_left]

/-- Loading succeeds, with this data and these commands. -/
def Loads (env : LoadEnv) (preamble : Bytes) (executed : List (List Bytes)) (file : Bytes) : Prop :=
  ((loadSingleAppendOnlyFile env file).status = .ok ∨
      (loadSingleAppendOnlyFile env file).status = .empty ∧ file = []) ∧
    (loadSingleAppendOnlyFile env file).preamble = preamble ∧
    (loadSingleAppendOnlyFile env file).executed = executed

lemma encodeItems_eq_nil {items : List Item} (h : encodeItems items = []) : items = [] := by
  cases items with
  | nil => rfl
  | cons x items =>
    rw [encodeItems_cons] at h
    rcases head_encode x with ⟨hx, _⟩ | ⟨hx, _⟩ <;> simp_all

/-- A file that is whole is loaded as it was written. -/
lemma loads_whole (htrunc : env.aofLoadTruncated) (hP : IsPreamble env preamble)
    {items : List Item} (hitems : ∀ x ∈ items, x.Ok) (hgroups : groups env items = some false) :
    Loads env preamble (commands env items) (preamble ++ encodeItems items) := by
  by_cases hnil : preamble ++ encodeItems items = []
  · obtain ⟨hpre, henc⟩ := append_eq_nil_iff.mp hnil
    rw [encodeItems_eq_nil henc, hpre]
    exact ⟨.inr ⟨rfl, rfl⟩, rfl, rfl⟩
  have hstart := commandsStart_eq hP [] (by simp) items
  rw [append_nil] at hstart
  obtain ⟨st, hfollows, hloop⟩ := loadLoop_cut htrunc hitems (by rw [hgroups]; rfl) preamble []
    (.inl rfl)
  have hpending : (parts env items).pending = none := by
    have h := hfollows.groupsAll
    rw [hgroups] at h
    simpa using h
  have hclosed : (parts env items).closed = items := by
    have h := hfollows.all
    rw [hpending] at h
    simpa using h.symm
  have hqueued : st.queued = none := by rw [hfollows.queued, hpending]; rfl
  have hexec : st.executed = commands env items := by rw [hfollows.executed, hclosed]
  have hload : loadSingleAppendOnlyFile env (preamble ++ encodeItems items) =
    { status := .ok, preamble, executed := commands env items
      file := preamble ++ encodeItems items } := by
    rw [loadSingleAppendOnlyFile, if_neg (by simpa using hnil), hstart]
    simp only [append_nil] at hloop
    simp only [take_left, drop_left, hloop, hqueued, hexec]
    rfl
  rw [Loads, hload]
  exact ⟨.inl rfl, rfl, rfl⟩

end Load

/-- The piece of an item that a file ends with. -/
def lastPiece (preamble : Bytes) (xs : List Item) (file : Bytes) : Bytes :=
  file.drop (preamble.length + (encodeItems xs).length)

/-- Where the cut does no harm: not in an annotation outside a transaction, not
in a command inside one, and not before the end of the first command, or of its
transaction, if there is a preamble. -/
structure CleanCut (env : LoadEnv) (preamble : Bytes) (xs : List Item) (file : Bytes) :
    Prop where
  outside : (lastPiece preamble xs file).head? = some 35 → (parts env xs).pending.isSome
  transaction : (lastPiece preamble xs file).head? = some 42 → (parts env xs).pending = none
  first : lastPiece preamble xs file ≠ [] ∨ (parts env xs).pending.isSome →
    preamble = [] ∨ (parts env xs).closed.any Item.isCommand

/-- What is asked of loading a file that was cut. -/
structure Recovers (env : LoadEnv) (preamble : Bytes) (xs : List Item) (file : Bytes) : Prop where
  status : (loadSingleAppendOnlyFile env file).status = .ok ∨
    (loadSingleAppendOnlyFile env file).status = .truncated ∨
    (loadSingleAppendOnlyFile env file).status = .empty ∧ file = []
  loaded : (loadSingleAppendOnlyFile env file).preamble = preamble
  executed : (loadSingleAppendOnlyFile env file).executed = commands env (parts env xs).closed
  kept : (loadSingleAppendOnlyFile env file).file <+: file
  resumes : ∀ later, (∀ x ∈ later, x.Ok) → groups env later = some false →
    Loads env preamble (commands env (parts env xs).closed ++ commands env later)
      ((loadSingleAppendOnlyFile env file).file ++ encodeItems later)

/-- A whole number of closed items is a good place to go on. -/
lemma resumes_of_items {zs later : List Item}
    (htrunc : env.aofLoadTruncated) (hP : IsPreamble env preamble)
    (hzs : ∀ x ∈ zs, x.Ok) (hgroups : groups env zs = some false)
    (hlater : ∀ x ∈ later, x.Ok) (hlaterGroups : groups env later = some false) :
    Loads env preamble (commands env zs ++ commands env later)
    (preamble ++ encodeItems zs ++ encodeItems later) := by
  rw [append_assoc, ← encodeItems_append, ← commands_append]
  apply loads_whole htrunc hP
  · intro x hx
    rcases mem_append.mp hx with hx | hx
    · exact hzs x hx
    · exact hlater x hx
  · rw [groups_append, hgroups]
    exact hlaterGroups

variable {xs : List Item}

lemma load_cut {piece : Bytes} (htrunc : env.aofLoadTruncated) (hP : IsPreamble env preamble)
    (hxs : ∀ x ∈ xs, x.Ok) (hgroups : (groups env xs).isSome)
    (hpiece : piece = [] ∨ ∃ y : Item, y.Ok ∧ piece ≠ [] ∧ piece <+: y.encode ∧
    piece.length < y.encode.length) (hne : preamble ++ (encodeItems xs ++ piece) ≠ []) :
    ∃ st, Follows env preamble.length xs st ∧
    loadSingleAppendOnlyFile env (preamble ++ (encodeItems xs ++ piece)) =
      if piece.head? = some 42 then
        { status := .truncated, preamble, executed := st.executed
          file := (preamble ++ (encodeItems xs ++ piece)).take st.validUpTo }
      else if st.queued.isSome then
        { status := .truncated, preamble, executed := st.executed
          file := (preamble ++ (encodeItems xs ++ piece)).take st.validBeforeMulti }
      else
        { status := .ok, preamble, executed := st.executed
          file := preamble ++ (encodeItems xs ++ piece) } := by
  have hhead : ∀ c ∈ piece.head?, c = 42 ∨ c = 35 := by
    intro c hc
    rcases hpiece with rfl | ⟨y, _, hnil, hinitial, _⟩
    · cases hc
    rw [head_of_initial hnil hinitial] at hc
    rcases head_encode y with ⟨h, _⟩ | ⟨h, _⟩ <;> rw [h] at hc <;> cases hc
    · exact .inl rfl
    · exact .inr rfl
  obtain ⟨st, hfollows, hloop⟩ := loadLoop_cut htrunc hxs hgroups preamble piece hpiece
  refine ⟨st, hfollows, ?_⟩
  rw [loadSingleAppendOnlyFile, if_neg (by simpa using hne), commandsStart_eq hP piece hhead]
  simp only [drop_left] at hloop ⊢
  rw [hloop]
  by_cases hshort : piece.head? = some 42
  · simp [hshort, unexpectedEof, htrunc]
  · simp [hshort, unexpectedEof, htrunc]

/-- A result that keeps a whole number of closed items is a recovery. -/
lemma recovers_of_items {file : Bytes} {zs : List Item}
    {status : AofStatus} (htrunc : env.aofLoadTruncated) (hP : IsPreamble env preamble)
    (hxs : ∀ x ∈ xs, x.Ok) (hstatus : status = .ok ∨ status = .truncated)
    (hres : loadSingleAppendOnlyFile env file =
    { status, preamble, executed := commands env (parts env xs).closed
      file := preamble ++ encodeItems zs })
    (hkept : preamble ++ encodeItems zs <+: file) (hzs : zs <+: xs)
    (hgroups : groups env zs = some false)
    (hcommands : commands env zs = commands env (parts env xs).closed) :
    Recovers env preamble xs file where
  status := by
    rw [hres]
    rcases hstatus with h | h
    · exact .inl h
    · exact .inr (.inl h)
  loaded := by rw [hres]
  executed := by rw [hres]
  kept := by rwa [hres]
  resumes := by
    intro later hlater hlaterGroups
    rw [hres, ← hcommands]
    exact resumes_of_items htrunc hP (fun x hx => hxs x (hzs.subset hx)) hgroups hlater hlaterGroups

/-- Cutting behind the last command of the closed part. -/
lemma cut_closed (env : LoadEnv) (piece : Bytes) {ys : List Item}
    (hys : ys <+: xs) (hfirst : preamble = [] ∨ ys.any Item.isCommand) :
    (preamble ++ (encodeItems xs ++ piece)).take (commandsEnd preamble.length ys) =
      preamble ++ encodeItems (upToCommand ys) ∧
    preamble ++ encodeItems (upToCommand ys) <+: preamble ++ (encodeItems xs ++ piece) ∧
    upToCommand ys <+: xs ∧
    groups env (upToCommand ys) = groups env ys ∧
    commands env (upToCommand ys) = commands env ys := by
  have hinitial := (upToCommand_initial ys).trans hys
  have hspec := upToCommand_spec env ys
  refine ⟨?_, ?_, hinitial, hspec.2, hspec.1⟩
  · rw [take_commandsEnd hys]
    split
    next hnil =>
      have hnil : upToCommand ys = [] := by simpa using hnil
      rcases hfirst with rfl | hcommand
      · rw [hnil]
        rfl
      · rw [upToCommand_eq_nil.mp hnil] at hcommand
        cases hcommand
    · rfl
  · obtain ⟨later, hlater⟩ := hinitial
    rw [← hlater, encodeItems_append, append_assoc]
    exact (prefix_append_right_inj preamble).mpr (prefix_append _ _)

/-- A file that was cut anywhere, except where `CleanCut` says, is loaded up to
the last command outside an unfinished transaction, and can be appended to. -/
theorem truncated_file_recovers {env : LoadEnv} {preamble file : Bytes} {items : List Item}
    (htrunc : env.aofLoadTruncated = true) (hP : IsPreamble env preamble)
    (hitems : ∀ x ∈ items, x.Ok) (hgroups : groups env items = some false)
    (hfile : file <+: preamble ++ encodeItems items) (hpre : preamble <+: file)
    (hcut : CleanCut env preamble (complete (file.length - preamble.length) items) file) :
    Recovers env preamble (complete (file.length - preamble.length) items) file := by
  obtain ⟨tail, rfl⟩ := hpre
  have htail : tail <+: encodeItems items := (prefix_append_right_inj preamble).mp hfile
  obtain ⟨later, piece, hsplit, htailEq, hpiece⟩ := prefix_items htail
  rw [length_append, Nat.add_sub_cancel_left] at hcut ⊢
  generalize complete tail.length items = xs at *
  subst htailEq hsplit
  have hxs : ∀ x ∈ xs, x.Ok := fun x hx => hitems x (mem_append_left _ hx)
  have hsome : (groups env xs).isSome := groups_isSome_left (by rw [hgroups]; rfl)
  have hpiece : piece = [] ∨ ∃ y : Item, y.Ok ∧ piece ≠ [] ∧ piece <+: y.encode ∧
      piece.length < y.encode.length := by
    rcases hpiece with h | ⟨y, hy, h⟩
    · exact .inl h
    · exact .inr ⟨y, hitems y (mem_append_right _ (mem_of_mem_head? hy)), h⟩
  have hlast : lastPiece preamble xs (preamble ++ (encodeItems xs ++ piece)) = piece := by
    rw [lastPiece, ← append_assoc, ← length_append, drop_left]
  obtain ⟨houtside, htransaction, hfirst⟩ := hcut
  rw [hlast] at houtside htransaction hfirst
  by_cases hnil : preamble ++ (encodeItems xs ++ piece) = []
  · -- an empty file
    obtain ⟨hpreNil, htailNil⟩ := append_eq_nil_iff.mp hnil
    obtain ⟨hxsNil, hpieceNil⟩ := append_eq_nil_iff.mp htailNil
    subst hpreNil hpieceNil
    rw [encodeItems_eq_nil hxsNil]
    refine ⟨.inr (.inr ⟨rfl, rfl⟩), rfl, rfl, prefix_refl _, ?_⟩
    intro later' hlater' hlaterGroups
    have hnone : ∀ x ∈ ([] : List Item), x.Ok := by simp
    exact resumes_of_items htrunc hP hnone rfl hlater' hlaterGroups
  obtain ⟨st, hfollows, hload⟩ := load_cut htrunc hP hxs hsome hpiece hnil
  have hall := hfollows.all
  rw [hfollows.executed, hfollows.queued, hfollows.validUpTo] at hload
  by_cases hshort : piece.head? = some 42
  · -- a piece of a command outside a transaction
    have hpending := htransaction hshort
    have hclosed : (parts env xs).closed = xs := by
      rw [hpending] at hall
      simpa using hall.symm
    have hne : piece ≠ [] := by
      rintro rfl
      cases hshort
    have hfirst' := hfirst (.inl hne)
    rw [hclosed] at hfirst'
    obtain ⟨htake, hkept, hinitial, hg, hc⟩ := cut_closed env piece (prefix_refl xs) hfirst'
    rw [if_pos hshort, htake] at hload
    apply recovers_of_items htrunc hP hxs (.inr rfl) hload hkept hinitial
    · rw [hg, hfollows.groupsAll, hpending]
      rfl
    · rw [hc, hclosed]
  · rw [if_neg hshort] at hload
    cases hpending : (parts env xs).pending with
    | some group =>
      -- the transaction goes
      have hsomePending : (parts env xs).pending.isSome := by rw [hpending]; rfl
      have hclosed : (parts env xs).closed <+: xs := ⟨_, hall.symm⟩
      obtain ⟨htake, hkept, hinitial, hg, hc⟩ :=
        cut_closed env piece hclosed (hfirst (.inr hsomePending))
      rw [hpending, map_some, isSome_some, hfollows.validBeforeMulti hsomePending,
        htake] at hload
      apply recovers_of_items htrunc hP hxs (.inr rfl) hload hkept hinitial
      · rw [hg, hfollows.groupsClosed]
      · exact hc
    | none =>
      -- the file is whole
      have hclosed : (parts env xs).closed = xs := by
        rw [hpending] at hall
        simpa using hall.symm
      have hwhole : piece = [] := by
        rcases hpiece with h | ⟨y, _, hne, hinitial, _⟩
        · exact h
        rcases head_encode y with ⟨hhead, _⟩ | ⟨hhead, _⟩ <;>
          rw [← head_of_initial hne hinitial] at hhead
        · exact absurd hhead hshort
        · have := houtside hhead
          rw [hpending] at this
          cases this
      subst hwhole
      rw [hpending] at hload
      simp only [append_nil] at hload ⊢
      apply recovers_of_items htrunc hP hxs (.inl rfl) hload (prefix_refl _) (prefix_refl _)
      · rw [hfollows.groupsAll, hpending]
        rfl
      · rw [hclosed]

instance (env : LoadEnv) (preamble : Bytes) (executed : List (List Bytes)) (file : Bytes) :
    Decidable (Loads env preamble executed file) := inferInstanceAs (Decidable (_ ∧ _))

/-- A command table of three commands, and RDB data of six bytes. -/
private def sampleLoadEnv : LoadEnv where
  lookupCommand
    | [] => none
    | name :: _ =>
      if name = ofString "MULTI" then some .multi
      else if name = ofString "EXEC" then some .exec
      else if name = ofString "INCR" then some .other
      else none
  rdbLoadRio file := if file.take 6 = ofString "REDIS!" then some 6 else none
  aofLoadTruncated := true

private def incr (key : String) : Item := .command [ofString "INCR", ofString key]

private def multi : Item := .command [ofString "MULTI"]

private def exec : Item := .command [ofString "EXEC"]

private lemma incr_ok : (incr "b").Ok := ⟨by decide, by decide, by decide +kernel⟩

/-- The file of these items, cut after `size` bytes. -/
private def cutFile (preamble : Bytes) (items : List Item) (size : Nat) : Bytes :=
  (preamble ++ encodeItems items).take size

/-- The items that are left whole. -/
private def wholeItems (preamble : Bytes) (items : List Item) (size : Nat) : List Item :=
  complete ((cutFile preamble items size).length - preamble.length) items

/-- A preamble, a command, and a transaction that is cut inside an annotation. -/
theorem truncated_file_recovers_sample : Recovers sampleLoadEnv (ofString "REDIS!")
        (wholeItems (ofString "REDIS!") [incr "b", multi, incr "b", .annotationLine 7, exec] 67)
        (cutFile (ofString "REDIS!") [incr "b", multi, incr "b", .annotationLine 7, exec] 67) ∧
      (loadSingleAppendOnlyFile sampleLoadEnv
        (cutFile (ofString "REDIS!") [incr "b", multi, incr "b", .annotationLine 7, exec]
          67)).file = ofString "REDIS!" ++ (incr "b").encode := by
  refine ⟨truncated_file_recovers rfl ?_ ?_ (by decide +kernel) ( take_prefix _ _) ?_ ?_,
    by decide +kernel⟩
  · refine .inr ⟨by decide, ?_⟩
    intro rest
    rfl
  · intro x hx
    simp only [mem_cons, not_mem_nil, or_false] at hx
    rcases hx with rfl | rfl | rfl | rfl | rfl
    · exact incr_ok
    · exact ⟨by decide, by decide, by decide +kernel⟩
    · exact incr_ok
    · exact ⟨by decide, by decide +kernel⟩
    · exact ⟨by decide, by decide, by decide +kernel⟩
  · exact prefix_take_iff.mpr ⟨prefix_append _ _, by decide⟩
  · exact ⟨by decide +kernel, by decide +kernel, by decide +kernel⟩

/-- An empty file has a status of its own.  A cut in an annotation, or in a
command of a transaction, leaves a file that does not load together with what is
appended; a cut in the first command takes the preamble away. -/
theorem recovery_fails : (loadSingleAppendOnlyFile sampleLoadEnv []).status = .empty ∧
      ¬ Recovers sampleLoadEnv [] (wholeItems [] [incr "b", .annotationLine 7] 25)
        (cutFile [] [incr "b", .annotationLine 7] 25) ∧
      ¬ Recovers sampleLoadEnv [] (wholeItems [] [multi, incr "b", exec] 18)
        (cutFile [] [multi, incr "b", exec] 18) ∧
      ¬ Recovers sampleLoadEnv (ofString "REDIS!") (wholeItems (ofString "REDIS!") [incr "b"] 7)
        (cutFile (ofString "REDIS!") [incr "b"] 7) := by
  have hlater : ∀ x ∈ [incr "b"], x.Ok := by
    intro x hx
    rw [mem_singleton.mp hx]
    exact incr_ok
  refine ⟨rfl, ?_, ?_, ?_⟩
  · intro h
    exact absurd (h.resumes [incr "b"] hlater (by decide +kernel)) (by decide +kernel)
  · intro h
    exact absurd (h.resumes [incr "b"] hlater (by decide +kernel)) (by decide +kernel)
  · intro h
    exact absurd (h.resumes [incr "b"] hlater (by decide +kernel)) (by decide +kernel)

end Dice.Ports.AofRecovery
