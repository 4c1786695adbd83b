import Dice.Ports.Resp
import Dice.Ports.SdsRepr
import Dice.Verified.Run

/-!
# The AOF manifest

The append only file is a set of files: at most one BASE file, INCR files with
increasing sequence numbers, and HISTORY files that a rewrite has replaced and
that are to be removed.  The manifest lists them, in memory and in a text file
with one line for each.  Names come from the configured `appendfilename` and from
two counters, which are set again from the entries when the file is read.
-/

namespace Dice.Ports.AofManifest

open Verified.CString NumberParsing Resp Sds SdsRepr

/-- `aof_file_type`. -/
inductive AofFileType
  | base
  | hist
  | incr
  deriving DecidableEq, Repr

/-- The letter that stands for the type in the file. -/
def AofFileType.letter : AofFileType → UInt8
  | .base => 98
  | .hist => 104
  | .incr => 105

/-- `aofInfo`. -/
structure AofInfo where
  fileName : Bytes
  fileSeq : Int
  fileType : AofFileType
  deriving DecidableEq, Repr

/-- `aofManifest`. -/
structure Manifest where
  baseAofInfo : Option AofInfo := none
  historyAofList : List AofInfo := []
  incrAofList : List AofInfo := []
  currBaseFileSeq : Int := 0
  currIncrFileSeq : Int := 0
  dirty : Bool := false
  deriving DecidableEq, Repr

/-- All entries, in the order of the file. -/
def Manifest.entries (am : Manifest) : List AofInfo :=
  am.baseAofInfo.toList ++ am.historyAofList ++ am.incrAofList

/-- The name of a BASE file. -/
def baseFileName (aofFilename : Bytes) (seq : Int) (rdbPreamble : Bool) : Bytes :=
  aofFilename ++ ofString "." ++ decimalInt seq ++ ofString ".base" ++
    ofString (if rdbPreamble then ".rdb" else ".aof")

/-- The name of an INCR file. -/
def incrFileName (aofFilename : Bytes) (seq : Int) : Bytes :=
  aofFilename ++ ofString "." ++ decimalInt seq ++ ofString ".incr" ++ ofString ".aof"

def getTempIncrAofName (aofFilename : Bytes) : Bytes :=
  ofString "temp-" ++ aofFilename ++ ofString ".incr"

def pathIsBaseName (path : Bytes) : Bool := !(cstr path).contains 47 && !(cstr path).contains 92

def isValidAOFfilename (val : Bytes) : Bool := !(cstr val).isEmpty && pathIsBaseName val

/-- The file name as it stands in a line. -/
def nameText (ai : AofInfo) : Bytes :=
  if sdsneedsrepr ai.fileName then sdscatrepr [] ai.fileName else ai.fileName

def aofInfoFormat (ai : AofInfo) : Bytes :=
  ofString "file" ++ 32 :: cstr (nameText ai) ++ 32 :: ofString "seq" ++
    32 :: decimalInt ai.fileSeq ++ 32 :: ofString "type" ++
    32 :: ai.fileType.letter :: [10]

def getAofManifestAsString (am : Manifest) : Bytes := am.entries.flatMap aofInfoFormat

/-- `MANIFEST_MAX_LINE`. -/
def manifestMaxLine : Nat := 1024

/-- `aofInfo` while its line is read; `none` and 0 stand for what is missing. -/
structure PartialInfo where
  fileName : Option Bytes := none
  fileSeq : Int := 0
  fileType : UInt8 := 0

def invalidFormat : Bytes := ofString "Invalid AOF manifest file format"

/-- The loop over the keys and values of a line. -/
def readFields (ai : PartialInfo) : List Bytes → Except Bytes PartialInfo
  | key :: value :: rest =>
    if strcaseEq key (ofString "file") then
      if pathIsBaseName value then
        readFields { ai with fileName := some (cstr value) } rest
      else .error (ofString "File can't be a path, just a filename")
    else if strcaseEq key (ofString "seq") then
      readFields { ai with fileSeq := atoll value } rest
    else if strcaseEq key (ofString "type") then
      readFields { ai with fileType := value.headD 0 } rest
    else readFields ai rest
  | _ => .ok ai

/-- The words of a line. -/
def splitLine (buf : Bytes) : Except Bytes (List Bytes) :=
  if !(cstr buf).contains 10 then
    .error (ofString "The AOF manifest file contains too long line")
  else
    let trimmed := sdstrim (cstr buf) [32, 9, 13, 10]
    if trimmed.isEmpty then .error invalidFormat
    else
      match sdssplitargs trimmed with
      | none => .error invalidFormat
      | some argv =>
        if argv.length < 6 || argv.length % 2 = 1 then .error invalidFormat
        else .ok argv

/-- Add an entry; `maxseq` is the last INCR sequence number. -/
def addInfo (state : Manifest × Int) (fileName : Bytes) (fileSeq : Int)
    (fileType : UInt8) : Except Bytes (Manifest × Int) :=
  let (am, maxseq) := state
  if fileType = AofFileType.base.letter then
    if am.baseAofInfo.isSome then
      .error (ofString "Found duplicate base file information")
    else
      .ok ({ am with
        baseAofInfo := some ⟨fileName, fileSeq, .base⟩, currBaseFileSeq := fileSeq },
        maxseq)
  else if fileType = AofFileType.hist.letter then
    .ok ({ am with
      historyAofList := am.historyAofList ++ [⟨fileName, fileSeq, .hist⟩] }, maxseq)
  else if fileType = AofFileType.incr.letter then
    if fileSeq ≤ maxseq then
      .error (ofString "Found a non-monotonic sequence number")
    else
      .ok ({ am with
        incrAofList := am.incrAofList ++ [⟨fileName, fileSeq, .incr⟩]
        currIncrFileSeq := fileSeq }, fileSeq)
  else .error (ofString "Unknown AOF file type")

/-- One line of the file. -/
def loadLine (state : Manifest × Int) (buf : Bytes) : Except Bytes (Manifest × Int) :=
  if buf.head? = some 35 then .ok state
  else
    match splitLine buf with
    | .error err => .error err
    | .ok argv =>
      match readFields {} argv with
      | .error err => .error err
      | .ok ai =>
        match ai.fileName with
        | none => .error invalidFormat
        | some fileName =>
          if ai.fileSeq = 0 || ai.fileType = 0 then .error invalidFormat
          else addInfo state fileName ai.fileSeq ai.fileType

/-- `aofLoadManifestFromFile`, for a file that can be read; an error ends the
process. -/
def aofLoadManifestFromFile (content : Bytes) : Except Bytes Manifest :=
  match fgets manifestMaxLine [] content with
  | [] => .error (ofString "Found an empty AOF manifest")
  | lines => (lines.foldlM loadLine ({}, 0)).map Prod.fst

end Dice.Ports.AofManifest
