import Asm16.Proofs.HexDump
import Asm16.Proofs.LineEnding
import Asm16.Proofs.Positional

/-! The format of hex dumps. A dump is its fields, line by line: what white space leaves of each line up to a
semicolon. Reading goes through them one after the other, and succeeds if and only if each of them is a base mark,
or none, with a hexadecimal number of at most 16 bits behind it. A base mark in lower case may have one in upper case
behind it. -/

namespace Asm16

namespace Text

def blankSeparated (t : Text) : List Text :=
  (((codePoints t).splitOnP CodePoint.isBlank).map fun run => run.flatMap CodePoint.bytes).filter (!·.isEmpty)

theorem fieldsFrom_eq_splitOnPPrepend (run cs : List CodePoint) :
    fieldsFrom (run.reverse.flatMap CodePoint.bytes).reverse [] cs =
      ((cs.splitOnPPrepend CodePoint.isBlank run).map fun run => run.flatMap CodePoint.bytes).filter
        (!·.isEmpty) := by
  induction cs generalizing run with
  | nil =>
    cases hfield : run.reverse.flatMap CodePoint.bytes <;> simp [fieldsFrom, hfield]
  | cons c rest ih =>
    by_cases hc : c.isBlank = true
    · have hfirst := ih []
      have hlast : fieldsFrom (run.reverse.flatMap CodePoint.bytes).reverse [] [] =
          [run.reverse.flatMap CodePoint.bytes].filter (!·.isEmpty) := by
        cases hfield : run.reverse.flatMap CodePoint.bytes <;> simp [fieldsFrom]
      rw [fieldsFrom_blank hc, List.splitOnPPrepend_cons_pos hc, List.map_cons, ← List.singleton_append,
        List.filter_append, hlast]
      exact congrArg _ hfirst
    · have hnext := ih (c :: run)
      rw [List.reverse_cons, List.flatMap_append, List.flatMap_singleton, List.reverse_append] at hnext
      rw [fieldsFrom_other hc, List.splitOnPPrepend_cons_neg (by simpa using hc)]
      exact hnext

theorem fields_eq_blankSeparated (t : Text) : fields t = blankSeparated t :=
  fieldsFrom_eq_splitOnPPrepend [] (codePoints t)

theorem fields_append_return (t : Text) : fields (t ++ [carriageReturn]) = fields t := by
  have hreturn : codePoints [carriageReturn] = [CodePoint.ofAscii carriageReturn] := codePoints_of_isAscii (by decide)
  have hblank : (CodePoint.ofAscii carriageReturn).isBlank = true := by decide
  rw [fields, codePoints_append (by decide), hreturn, fieldsFrom_append_blank hblank]
  exact List.append_nil _

/-- The carriage return that a line may end with is white space, so that it makes no difference to its fields. -/
theorem fields_before_chomp (piece : Text) :
    fields (before semicolon (chomp piece)) = fields (before semicolon piece) := by
  by_cases hlast : piece.getLast? = some carriageReturn
  · obtain ⟨line, rfl⟩ := List.getLast?_eq_some_iff.1 hlast
    rw [chomp_append_return]
    by_cases hcomment : semicolon ∈ line
    · rw [before_append_of_mem hcomment]
    · have hlonger : semicolon ∉ line ++ [carriageReturn] := by
        rw [List.mem_append, not_or, List.mem_singleton]
        exact ⟨hcomment, by decide⟩
      rw [before_of_notMem hcomment, before_of_notMem hlonger, fields_append_return]
  · rw [chomp, if_neg hlast]

theorem trimStart_eq_self {start t : Text} (h : ¬ start <+: t) : trimStart start t = t := by
  rw [trimStart, if_neg (mt List.isPrefixOf_iff_prefix.1 h)]

theorem trimStart_append (start t : Text) : trimStart start (start ++ t) = t := by
  rw [trimStart, if_pos (List.isPrefixOf_iff_prefix.2 (List.prefix_append start t)), List.drop_left]

end Text

namespace Dump

def lowerMark : Text := ascii "0x"

def upperMark : Text := ascii "0X"

/-- A field that is one of the given marks with a hexadecimal number behind it, and the word of that number. -/
def Spelt (marks : List Text) (field : Text) (word : UInt16) : Prop :=
  ∃ mark ∈ marks, ∃ digits, digits ≠ [] ∧ field = mark ++ digits ∧ Text.Positional 16 digits word.toNat

/-- A field that is read as a word. Of the marks a lower case one can have an upper case one behind it. -/
def Denotes : Text → UInt16 → Prop := Spelt [[], lowerMark, upperMark, lowerMark ++ upperMark]

def unmarked (field : Text) : Text := Text.trimStart upperMark (Text.trimStart lowerMark field)

theorem word?_eq_some_iff_unmarked {field : Text} {word : UInt16} :
    word? field = some word ↔ unmarked field ≠ [] ∧ Text.Positional 16 (unmarked field) word.toNat := by
  have hbind : word? field =
      (Text.read? 16 (unmarked field)).bind fun n => if n < 65536 then some (UInt16.ofNat n) else none := by
    have hrest : Text.trimStart (ascii "0X") (Text.trimStart (ascii "0x") field) = unmarked field := rfl
    rw [word?, hrest]
    cases Text.read? 16 (unmarked field) <;> rfl
  rw [hbind, Text.bind_ofNat_eq_some_iff, Text.read?_eq_some_iff (by decide)]

theorem exists_mark (field : Text) :
    ∃ mark ∈ [[], lowerMark, upperMark, lowerMark ++ upperMark], field = mark ++ unmarked field := by
  by_cases hlower : lowerMark <+: field
  · obtain ⟨rest, rfl⟩ := hlower
    by_cases hupper : upperMark <+: rest
    · obtain ⟨digits, rfl⟩ := hupper
      refine ⟨lowerMark ++ upperMark, by simp, ?_⟩
      rw [unmarked, Text.trimStart_append, Text.trimStart_append, List.append_assoc]
    · refine ⟨lowerMark, by simp, ?_⟩
      rw [unmarked, Text.trimStart_append, Text.trimStart_eq_self hupper]
  · by_cases hupper : upperMark <+: field
    · obtain ⟨digits, rfl⟩ := hupper
      refine ⟨upperMark, by simp, ?_⟩
      rw [unmarked, Text.trimStart_eq_self hlower, Text.trimStart_append]
    · refine ⟨[], by simp, ?_⟩
      rw [unmarked, Text.trimStart_eq_self hlower, Text.trimStart_eq_self hupper, List.nil_append]

/-- Digits hold no letter of a mark, so nothing of them is dropped with the mark before them. -/
theorem unmarked_append {mark digits : Text} {n : Nat}
    (hmark : mark ∈ [[], lowerMark, upperMark, lowerMark ++ upperMark]) (h : Text.Positional 16 digits n) :
    unmarked (mark ++ digits) = digits := by
  have hlower : Text.trimStart lowerMark digits = digits :=
    Text.trimStart_of_notMem (b := 'x'.toUInt8) (by decide) (h.notMem (by decide) (by decide))
  have hupper : Text.trimStart upperMark digits = digits :=
    Text.trimStart_of_notMem (b := 'X'.toUInt8) (by decide) (h.notMem (by decide) (by decide))
  have hother : Text.trimStart lowerMark (upperMark ++ digits) = upperMark ++ digits := rfl
  simp only [List.mem_cons, List.not_mem_nil, or_false] at hmark
  unfold unmarked
  rcases hmark with rfl | rfl | rfl | rfl
  · rw [List.nil_append, hlower, hupper]
  · rw [Text.trimStart_append, hupper]
  · rw [hother, Text.trimStart_append]
  · rw [List.append_assoc, Text.trimStart_append, Text.trimStart_append]

theorem word?_eq_some_iff {field : Text} {word : UInt16} : word? field = some word ↔ Denotes field word := by
  rw [word?_eq_some_iff_unmarked]
  constructor
  · rintro ⟨hne, hdigits⟩
    obtain ⟨mark, hmark, hfield⟩ := exists_mark field
    exact ⟨mark, hmark, unmarked field, hne, hfield, hdigits⟩
  · rintro ⟨mark, hmark, digits, hne, rfl, hdigits⟩
    rw [unmarked_append hmark hdigits]
    exact ⟨hne, hdigits⟩

/-- The fields of a line: what white space separates in it, up to a semicolon. -/
def lineFields (line : Text) : List Text := Text.blankSeparated (Text.before Text.semicolon line)

theorem lineFields_nil : lineFields [] = [] := by
  rw [lineFields, ← Text.fields_eq_blankSeparated]
  simp [Text.before, Text.fields, Text.codePoints_nil, Text.fieldsFrom]

theorem fields_before_chomp_eq (piece : Text) :
    Text.fields (Text.before Text.semicolon (Text.chomp piece)) = lineFields piece := by
  rw [Text.fields_before_chomp, Text.fields_eq_blankSeparated, lineFields]

theorem flatMap_fields_delivered {ps : List Text} (hne : ps ≠ []) :
    ((Text.delivered ps).map Text.chomp).flatMap (fun line => Text.fields (Text.before Text.semicolon line)) =
      ps.flatMap lineFields := by
  rw [List.flatMap_map]
  simp only [fields_before_chomp_eq]
  nth_rewrite 2 [Text.eq_delivered_append hne]
  rw [List.flatMap_append]
  split
  · rw [List.flatMap_singleton, lineFields_nil, List.append_nil]
  · exact (List.append_nil _).symm

def numberedFields (number : Nat) : List Text → List (Nat × Text)
  | [] => []
  | line :: rest =>
    (Text.fields (Text.before Text.semicolon line)).map (number, ·) ++ numberedFields (number + 1) rest

def readNumbered (words : List UInt16) : List (Nat × Text) → Reading
  | [] => ⟨words, none⟩
  | (line, field) :: rest =>
    match word? field with
    | some word => readNumbered (word :: words) rest
    | none => ⟨words, some (.notWord line field)⟩

theorem readNumbered_append (line : Nat) (words : List UInt16) (fields : List Text) (rest : List (Nat × Text)) :
    readNumbered words (fields.map (line, ·) ++ rest) =
      if (readFields line words fields).fault.isNone then readNumbered (readFields line words fields).words rest
      else readFields line words fields := by
  induction fields generalizing words with
  | nil => rfl
  | cons field more ih =>
    rw [List.map_cons, List.cons_append, readNumbered, readFields]
    cases word? field with
    | none => rfl
    | some word => exact ih (word :: words)

theorem readLines_eq_readNumbered (number : Nat) (words : List UInt16) (lines : List Text) :
    readLines number words lines = readNumbered words (numberedFields number lines) := by
  induction lines generalizing number words with
  | nil => rfl
  | cons line rest ih =>
    rw [readLines, numberedFields, readNumbered_append]
    rcases readFields number words (Text.fields (Text.before Text.semicolon line)) with ⟨read, _ | fault⟩
    · exact ih (number + 1) read
    · rfl

theorem readNumbered_eq_iff {done words : List UInt16} {fields : List (Nat × Text)} :
    readNumbered done fields = ⟨words, none⟩ ↔
      ∃ read, words = read.reverse ++ done ∧
        List.Forall₂ (fun field word => word? field.2 = some word) fields read := by
  induction fields generalizing done with
  | nil => simp [readNumbered, eq_comm]
  | cons field rest ih =>
    rw [readNumbered]
    cases hword : word? field.2 with
    | none =>
      constructor
      · intro h
        have hfault : some (Fault.notWord field.1 field.2) = none := congrArg Reading.fault h
        contradiction
      · rintro ⟨read, -, hall⟩
        obtain ⟨word, more, hfirst, -, -⟩ := List.forall₂_cons_left_iff.1 hall
        rw [hword] at hfirst
        contradiction
    | some word =>
      rw [ih]
      constructor
      · rintro ⟨read, rfl, hall⟩
        refine ⟨word :: read, ?_, .cons hword hall⟩
        rw [List.reverse_cons, List.append_assoc, List.singleton_append]
      · rintro ⟨_, rfl, hall⟩
        obtain ⟨found, read, hfirst, hrest, rfl⟩ := List.forall₂_cons_left_iff.1 hall
        obtain rfl : word = found := Option.some.inj (hword.symm.trans hfirst)
        refine ⟨read, ?_, hrest⟩
        rw [List.reverse_cons, List.append_assoc, List.singleton_append]

theorem map_snd_numberedFields (number : Nat) (lines : List Text) :
    (numberedFields number lines).map Prod.snd =
      lines.flatMap fun line => Text.fields (Text.before Text.semicolon line) := by
  induction lines generalizing number with
  | nil => rfl
  | cons line rest ih =>
    rw [numberedFields, List.map_append, ih, List.map_map, List.flatMap_cons]
    exact congrArg (· ++ _) (List.map_id _)

def dumpFields (text : Text) : List Text := (Text.pieces text).flatMap lineFields

/-- A dump is read field by field; a line that is too long is reported if no field before it is at fault. -/
theorem read_eq_readNumbered (text : Text) :
    read text = ⟨(readNumbered [] (numberedFields 1 (Text.lines text).lines)).words.reverse,
      (readNumbered [] (numberedFields 1 (Text.lines text).lines)).fault.or
        (if (Text.lines text).overlong then some .lineTooLong else none)⟩ := by
  rw [← readLines_eq_readNumbered, read]
  rcases readLines 1 [] (Text.lines text).lines with ⟨words, _ | fault⟩
  · rfl
  · rfl

theorem read_eq_iff_of_short {text : Text} (h : ∀ line ∈ Text.pieces text, line.length < Text.lineLimit)
    {words : List UInt16} : read text = ⟨words, none⟩ ↔
      List.Forall₂ (fun field word => word? field = some word) (dumpFields text) words := by
  have hlines := Text.lines_of_short h
  have hfields : dumpFields text = (numberedFields 1 (Text.lines text).lines).map Prod.snd := by
    rw [map_snd_numberedFields, hlines, flatMap_fields_delivered (Text.pieces_ne_nil text), dumpFields]
  have hshort : (Text.lines text).overlong = false := by rw [hlines]
  have hread : read text = ⟨words, none⟩ ↔
      readNumbered [] (numberedFields 1 (Text.lines text).lines) = ⟨words.reverse, none⟩ := by
    rw [read_eq_readNumbered, hshort]
    rcases readNumbered [] (numberedFields 1 (Text.lines text).lines) with ⟨found, fault⟩
    simp [List.reverse_eq_iff]
  rw [hread, readNumbered_eq_iff, hfields, List.forall₂_map_left_iff]
  constructor
  · rintro ⟨found, hfound, hall⟩
    rw [List.append_nil, List.reverse_inj] at hfound
    rwa [hfound]
  · intro hall
    exact ⟨words, (List.append_nil _).symm, hall⟩

/-- A dump in which no line is too long is read if and only if each of its fields is spelt as a word, and it then
gives these words in order. -/
theorem read_exact {text : Text} (h : ∀ line ∈ Text.pieces text, line.length < 65536) :
    ((read text).fault = none ↔ ∀ field ∈ dumpFields text, ∃ word, Denotes field word) ∧
    ∀ words, read text = ⟨words, none⟩ ↔ List.Forall₂ Denotes (dumpFields text) words := by
  have hexact : ∀ words, read text = ⟨words, none⟩ ↔ List.Forall₂ Denotes (dumpFields text) words := by
    intro words
    simp only [read_eq_iff_of_short h, word?_eq_some_iff]
  have hsucceeds : (read text).fault = none ↔ ∃ words, read text = ⟨words, none⟩ := by
    constructor
    · intro hfault
      exact ⟨(read text).words, by rw [← hfault]⟩
    · rintro ⟨words, hwords⟩
      rw [hwords]
  refine ⟨?_, hexact⟩
  rw [hsucceeds, exists_congr hexact, exists_forall₂_iff]

def sampleDump : Text := ascii "7c01 0x0030 ; 0x\n\n\t61C1 0X1a\r\n0x0X0000001"

theorem read_exact_sampleDump :
    (∀ line ∈ Text.pieces sampleDump, line.length < 65536) ∧
    dumpFields sampleDump = [ascii "7c01", ascii "0x0030", ascii "61C1", ascii "0X1a", ascii "0x0X0000001"] ∧
    read sampleDump = ⟨[0x7c01, 0x30, 0x61c1, 0x1a, 1], none⟩ ∧ (read (ascii "0X0x1")).fault ≠ none := by
  have hshort : ∀ line ∈ Text.pieces sampleDump, line.length < 65536 := by decide
  have hfields : dumpFields sampleDump =
      [ascii "7c01", ascii "0x0030", ascii "61C1", ascii "0X1a", ascii "0x0X0000001"] := by decide +kernel
  have hwords : List.Forall₂ (fun field word => word? field = some word) (dumpFields sampleDump)
      [0x7c01, 0x30, 0x61c1, 0x1a, 1] := by
    rw [hfields]
    decide +kernel
  have hother : dumpFields (ascii "0X0x1") = [ascii "0X0x1"] := by decide +kernel
  refine ⟨hshort, hfields, ((read_exact hshort).2 _).2 ?_, ?_⟩
  · simpa only [word?_eq_some_iff] using hwords
  · intro hfault
    obtain ⟨word, hword⟩ := (read_exact (by decide)).1.1 hfault (ascii "0X0x1") (by rw [hother]; simp)
    have hnone : word? (ascii "0X0x1") = none := by decide +kernel
    rw [← word?_eq_some_iff, hnone] at hword
    contradiction

/-- A field that has two marks is read, though it is not spelt with a single one. -/
theorem read_two_marks :
    (∀ line ∈ Text.pieces (ascii "0x0X1"), line.length < 65536) ∧ read (ascii "0x0X1") = ⟨[1], none⟩ ∧
    ∃ field ∈ dumpFields (ascii "0x0X1"), ∀ word, ¬ Spelt [[], lowerMark, upperMark] field word := by
  have hfields : dumpFields (ascii "0x0X1") = [ascii "0x0X1"] := by decide +kernel
  refine ⟨by decide, by decide +kernel, ascii "0x0X1", by rw [hfields]; simp, ?_⟩
  rintro word ⟨mark, hmark, digits, -, hfield, hdigits⟩
  have hlower : 'x'.toUInt8 ∉ digits := hdigits.notMem (by decide) (by decide)
  have hupper : 'X'.toUInt8 ∉ digits := hdigits.notMem (by decide) (by decide)
  simp only [List.mem_cons, List.not_mem_nil, or_false] at hmark
  rcases hmark with rfl | rfl | rfl
  · rw [List.nil_append] at hfield
    exact hlower (by rw [← hfield]; decide)
  · have hrest : ascii "0X1" = digits := congrArg (List.drop 2) hfield
    exact hupper (by rw [← hrest]; decide)
  · have hsecond : some 'x'.toUInt8 = some 'X'.toUInt8 := congrArg (fun t : Text => t[1]?) hfield
    exact absurd hsecond (by decide)

end Dump
end Asm16
