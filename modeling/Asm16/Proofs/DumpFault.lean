import Asm16.Proofs.DumpFormat

/-! Where the reading of a dump stops. The lines of a dump are read one after the other up to the first one that is
too long or holds a field which denotes no word. What has been read until then are the words of all fields before that
place, and no line behind it is looked at. -/

namespace Asm16

namespace Dump

theorem word?_of_denotes {field : Text} {word : UInt16} (h : Denotes field word) : word? field = some word :=
  word?_eq_some_iff.2 h

theorem word?_eq_none {field : Text} (h : ∀ word, ¬ Denotes field word) : word? field = none := by
  rw [Option.eq_none_iff_forall_ne_some]
  exact fun word hword => h word (word?_eq_some_iff.1 hword)

theorem denotes_or_exists_first (fields : List Text) :
    (∃ words, List.Forall₂ Denotes fields words) ∨
      ∃ good bad more words, fields = good ++ bad :: more ∧ List.Forall₂ Denotes good words ∧
        ∀ word, ¬ Denotes bad word := by
  induction fields with
  | nil => exact .inl ⟨[], .nil⟩
  | cons field rest ih =>
    by_cases hfield : ∃ word, Denotes field word
    · obtain ⟨word, hword⟩ := hfield
      rcases ih with ⟨words, hwords⟩ | ⟨good, bad, more, words, rfl, hgood, hbad⟩
      · exact .inl ⟨word :: words, .cons hword hwords⟩
      · exact .inr ⟨field :: good, bad, more, word :: words, rfl, .cons hword hgood, hbad⟩
    · rw [not_exists] at hfield
      exact .inr ⟨[], field, rest, [], rfl, .nil, hfield⟩

theorem readFields_append {good : List Text} {read : List UInt16} (h : List.Forall₂ Denotes good read) (line : Nat)
    (words : List UInt16) (more : List Text) :
    readFields line words (good ++ more) = readFields line (read.reverse ++ words) more := by
  induction h generalizing words with
  | nil => rfl
  | @cons field word good read hword _ ih =>
    rw [List.cons_append, readFields, word?_of_denotes hword, List.reverse_cons, List.append_assoc]
    exact ih (word :: words)

structure Passes (lines : List Text) (words : List UInt16) : Prop where
  short : ∀ line ∈ lines, line.length < 65536
  fields : List.Forall₂ Denotes (lines.flatMap lineFields) words

/-- What stops the reading at a line with a number, and the words that the line gives before that. -/
inductive Stops (number : Nat) (line : Text) : List UInt16 → Fault → Prop
  | tooLong (hlong : 65536 ≤ line.length) : Stops number line [] .lineTooLong
  | notWord {good more : List Text} {bad : Text} {words : List UInt16} (hshort : line.length < 65536)
    (hfields : lineFields line = good ++ bad :: more) (hgood : List.Forall₂ Denotes good words)
    (hbad : ∀ word, ¬ Denotes bad word) : Stops number line words (.notWord number bad)

theorem Passes.cons {line : Text} {lines : List Text} {here words : List UInt16} (hshort : line.length < 65536)
    (hhere : List.Forall₂ Denotes (lineFields line) here) (h : Passes lines words) :
    Passes (line :: lines) (here ++ words) where
  short := List.forall_mem_cons.2 ⟨hshort, h.short⟩
  fields := by
    rw [List.flatMap_cons]
    exact List.rel_append hhere h.fields

theorem passes_or_exists_stops (number : Nat) (lines : List Text) :
    (∃ words, Passes lines words) ∨
      ∃ done line later before here fault, lines = done ++ line :: later ∧ Passes done before ∧
        Stops (number + done.length) line here fault := by
  have hnone : Passes [] [] := ⟨by simp, .nil⟩
  induction lines generalizing number with
  | nil => exact .inl ⟨[], hnone⟩
  | cons line rest ih =>
    by_cases hlong : 65536 ≤ line.length
    · exact .inr ⟨[], line, rest, [], [], _, rfl, hnone, .tooLong hlong⟩
    · have hshort : line.length < 65536 := Nat.lt_of_not_le hlong
      rcases denotes_or_exists_first (lineFields line) with
        ⟨here, hhere⟩ | ⟨good, bad, more, here, hfields, hgood, hbad⟩
      · rcases ih (number + 1) with
          ⟨words, hpasses⟩ | ⟨done, stop, later, before, last, fault, rfl, hpasses, hstops⟩
        · exact .inl ⟨_, hpasses.cons hshort hhere⟩
        · refine .inr ⟨line :: done, stop, later, _, last, fault, rfl, hpasses.cons hshort hhere, ?_⟩
          rw [List.length_cons]
          rwa [Nat.add_assoc, Nat.add_comm 1] at hstops
      · exact .inr ⟨[], line, rest, [], here, _, rfl, hnone, .notWord hshort hfields hgood hbad⟩

theorem readLines_append (number : Nat) (words : List UInt16) (lines more : List Text) :
    readLines number words (lines ++ more) =
      if (readLines number words lines).fault.isNone then
        readLines (number + lines.length) (readLines number words lines).words more
      else readLines number words lines := by
  induction lines generalizing number words with
  | nil => rfl
  | cons line rest ih =>
    rw [List.cons_append, readLines, readLines, List.length_cons, Nat.add_comm rest.length, ← Nat.add_assoc]
    rcases readFields number words (Text.fields (Text.before Text.semicolon line)) with ⟨read, _ | fault⟩
    · exact ih (number + 1) read
    · rfl

theorem Passes.readLines_eq {lines : List Text} {read : List UInt16} (h : Passes lines read) (number : Nat)
    (words : List UInt16) : readLines number words (lines.map Text.chomp) = ⟨read.reverse ++ words, none⟩ := by
  have hfields : (numberedFields number (lines.map Text.chomp)).map Prod.snd = lines.flatMap lineFields := by
    rw [map_snd_numberedFields, List.flatMap_map]
    simp only [fields_before_chomp_eq]
  have hdenotes := h.fields
  rw [← hfields, List.forall₂_map_left_iff] at hdenotes
  rw [readLines_eq_readNumbered, readNumbered_eq_iff]
  exact ⟨read, rfl, hdenotes.imp fun _ _ => word?_of_denotes⟩

theorem read_of_passes {text : Text} {words : List UInt16} (h : Passes (Text.pieces text) words) :
    read text = ⟨words, none⟩ :=
  (read_eq_iff_of_short h.short).2 (h.fields.imp fun _ _ => word?_of_denotes)

theorem read_of_stops {text : Text} {done later : List Text} {line : Text} {before here : List UInt16} {fault : Fault}
    (hpieces : Text.pieces text = done ++ line :: later) (hpasses : Passes done before)
    (hstops : Stops (done.length + 1) line here fault) : read text = ⟨before ++ here, some fault⟩ := by
  have hnewline : ∀ p ∈ done ++ line :: later, Text.newline ∉ p := by
    rw [← hpieces]
    exact fun p => Text.newline_notMem_of_mem_pieces
  obtain ⟨hdone, hrest⟩ := List.forall_mem_append.1 hnewline
  obtain ⟨hline, -⟩ := List.forall_mem_cons.1 hrest
  have hlines := Text.lines_stacked_append hdone hpasses.short (List.cons_ne_nil line later)
  have hbefore := hpasses.readLines_eq 1 []
  rw [← hpieces, Text.stacked_pieces] at hlines
  cases hstops with
  | tooLong hlong =>
    rw [Text.lines_stacked_of_long hline hlong, List.append_nil] at hlines
    simp [read, hlines, hbefore]
  | @notWord good more bad _ hshort hfields hgood hbad =>
    have hne : line ≠ [] := by
      rintro rfl
      simp [lineFields_nil] at hfields
    -- The line has a field, so it is delivered even if it is the last and no newline ends it.
    obtain ⟨lines, hdelivered⟩ := Text.exists_lines_stacked_cons hne hline hshort later
    have hhere : readLines (1 + done.length) before.reverse (Text.chomp line :: lines) =
        ⟨here.reverse ++ before.reverse, some (.notWord (done.length + 1) bad)⟩ := by
      rw [readLines, fields_before_chomp_eq, hfields, readFields_append hgood, readFields, word?_eq_none hbad,
        Nat.add_comm]
    have hread : readLines 1 [] (Text.lines text).lines =
        ⟨here.reverse ++ before.reverse, some (.notWord (done.length + 1) bad)⟩ := by
      rw [hlines, hdelivered, readLines_append, hbefore, List.append_nil, List.length_map]
      exact hhere
    simp [read, hread]

theorem read_eq_stopped_iff {text : Text} {words : List UInt16} {fault : Fault} :
    read text = ⟨words, some fault⟩ ↔
      ∃ done line later before here, Text.pieces text = done ++ line :: later ∧ Passes done before ∧
        Stops (done.length + 1) line here fault ∧ words = before ++ here := by
  constructor
  · intro h
    rcases passes_or_exists_stops 1 (Text.pieces text) with
      ⟨read, hpasses⟩ | ⟨done, line, later, before, here, found, hpieces, hpasses, hstops⟩
    · rw [read_of_passes hpasses] at h
      simp at h
    · rw [Nat.add_comm] at hstops
      rw [read_of_stops hpieces hpasses hstops] at h
      obtain ⟨rfl, hfault⟩ := Reading.mk.inj h
      obtain rfl := Option.some.inj hfault
      exact ⟨done, line, later, before, here, hpieces, hpasses, hstops, rfl⟩
  · rintro ⟨done, line, later, before, here, hpieces, hpasses, hstops, rfl⟩
    exact read_of_stops hpieces hpasses hstops

/-- A dump that cannot be read to its end. The words read are those of all fields before the place where reading
stops: at the first line that is too long, or at the first field that denotes no word. Such a field is reported as it
is written, with the number of its line. Every text that has the same lines up to that one is read in the same way. -/
theorem read_stopped {text : Text} {words : List UInt16} {fault : Fault} (h : read text = ⟨words, some fault⟩) :
    ∃ done line later good, Text.pieces text = done ++ line :: later ∧
      (∀ p ∈ done, p.length < 65536) ∧
      List.Forall₂ Denotes (done.flatMap lineFields ++ good) words ∧
      ((65536 ≤ line.length ∧ good = [] ∧ fault = .lineTooLong) ∨
        line.length < 65536 ∧ ∃ bad more,
          lineFields line = good ++ bad :: more ∧ (∀ word, ¬ Denotes bad word) ∧
          fault = .notWord (done.length + 1) bad ∧
          fault.message = ascii "line " ++ Text.decimal (done.length + 1) ++ ascii ": '" ++ bad ++
            ascii "' is not a hex word") ∧
      ∀ other rest, Text.pieces other = done ++ line :: rest → read other = ⟨words, some fault⟩ := by
  obtain ⟨done, line, later, before, here, hpieces, hpasses, hstops, rfl⟩ := read_eq_stopped_iff.1 h
  have hsame : ∀ other rest, Text.pieces other = done ++ line :: rest →
      read other = ⟨before ++ here, some fault⟩ :=
    fun other rest hother => read_of_stops hother hpasses hstops
  cases hstops with
  | tooLong hlong =>
    refine ⟨done, line, later, [], hpieces, hpasses.short, ?_, .inl ⟨hlong, rfl, rfl⟩, hsame⟩
    exact List.rel_append hpasses.fields .nil
  | @notWord good more bad _ hshort hfields hgood hbad =>
    refine ⟨done, line, later, good, hpieces, hpasses.short, ?_, .inr ?_, hsame⟩
    · exact List.rel_append hpasses.fields hgood
    · exact ⟨hshort, bad, more, hfields, hbad, rfl, rfl⟩

/-- A comment with what would be no word, an empty line, and then two fields that are none. -/
def faultyDump : Text := ascii "7c01 0x30 ; zz\n\n\t0X1f g h\r\n!!"

theorem read_stopped_faultyDump :
    read faultyDump = ⟨[0x7c01, 0x30, 0x1f], some (.notWord 3 (ascii "g"))⟩ ∧
    (Fault.notWord 3 (ascii "g")).message = ascii "line 3: 'g' is not a hex word" ∧
    read (ascii "7c01 0x30 ; zz\n\n\t0X1f g h\r\n1 2\n3") =
      ⟨[0x7c01, 0x30, 0x1f], some (.notWord 3 (ascii "g"))⟩ := by
  have hread : read faultyDump = ⟨[0x7c01, 0x30, 0x1f], some (.notWord 3 (ascii "g"))⟩ := by decide +kernel
  have hlines : Text.pieces faultyDump =
      [ascii "7c01 0x30 ; zz", []] ++ ascii "\t0X1f g h\r" :: [ascii "!!"] := by decide
  obtain ⟨done, line, later, good, hpieces, -, -, hcase, hsame⟩ := read_stopped hread
  rcases hcase with ⟨-, -, hfault⟩ | ⟨-, bad, more, -, -, hfault, -⟩
  · contradiction
  · have hnumber : 3 = done.length + 1 := (Fault.notWord.inj hfault).1
    obtain ⟨hdone, hrest⟩ := List.append_inj (hlines.symm.trans hpieces) (Nat.succ.inj hnumber)
    obtain ⟨hline, -⟩ := List.cons.inj hrest
    refine ⟨hread, by decide +kernel, hsame _ [ascii "1 2", ascii "3"] ?_⟩
    rw [← hdone, ← hline]
    decide

end Dump
end Asm16
