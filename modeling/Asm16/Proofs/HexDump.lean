import Asm16.Dump
import Asm16.Proofs.CodePoint
import Asm16.Proofs.Rendering

/-! Hex dumps read back. A dump is rows of up to eight words, each word four digits; a row is read as the
fields that it was put together from, a field as its word, and so a dump as the words it was written from. -/

namespace Asm16

namespace Text

def isSolid (b : UInt8) : Bool := b < 0x80 && !(CodePoint.ofAscii b).isBlank

theorem fieldsFrom_eq (field : Text) (done : List Text) (cs : List CodePoint) :
    fieldsFrom field done cs = done.reverse ++ fieldsFrom field [] cs := by
  induction cs generalizing field done with
  | nil => cases field <;> simp [fieldsFrom]
  | cons c rest ih =>
    rw [fieldsFrom, fieldsFrom]
    split
    · rw [ih, ih [] (if field.isEmpty then [] else [field.reverse])]
      cases field <;> simp
    · rw [ih]

theorem fieldsFrom_blank {c : CodePoint} (hc : c.isBlank = true) (field : Text) (rest : List CodePoint) :
    fieldsFrom field [] (c :: rest) = fieldsFrom field [] [] ++ fieldsFrom [] [] rest := by
  simp only [fieldsFrom]
  rw [if_pos hc, fieldsFrom_eq]

theorem fieldsFrom_other {c : CodePoint} (hc : ¬ c.isBlank = true) (field : Text) (rest : List CodePoint) :
    fieldsFrom field [] (c :: rest) = fieldsFrom (c.bytes.reverse ++ field) [] rest := by
  rw [fieldsFrom, if_neg hc]

theorem fieldsFrom_append_blank {c : CodePoint} (hc : c.isBlank = true) (field : Text) (cs ds : List CodePoint) :
    fieldsFrom field [] (cs ++ c :: ds) = fieldsFrom field [] cs ++ fieldsFrom [] [] ds := by
  induction cs generalizing field with
  | nil => exact fieldsFrom_blank hc field ds
  | cons d rest ih =>
    rw [List.cons_append]
    by_cases hd : d.isBlank = true
    · rw [fieldsFrom_blank hd, ih, fieldsFrom_blank hd, List.append_assoc]
    · rw [fieldsFrom_other hd, ih, fieldsFrom_other hd]

theorem fields_append_space {t u : Text} (ht : isAscii t = true) (hu : isAscii u = true) :
    fields (t ++ space :: u) = fields t ++ fields u := by
  have hall : isAscii (t ++ space :: u) = true := by
    unfold isAscii at *
    rw [List.all_append, List.all_cons, ht, hu]
    rfl
  unfold fields
  rw [codePoints_of_isAscii hall, codePoints_of_isAscii ht, codePoints_of_isAscii hu, List.map_append, List.map_cons]
  exact fieldsFrom_append_blank (by decide) [] _ _

theorem isAscii_of_solid {w : Text} (h : w.all isSolid = true) : isAscii w = true := by
  rw [isAscii, List.all_eq_true]
  intro b hb
  exact (Bool.and_eq_true_iff.1 (List.all_eq_true.1 h b hb)).1

theorem fieldsFrom_of_solid {w : Text} (h : w.all isSolid = true) (field : Text) :
    fieldsFrom field [] (w.map CodePoint.ofAscii) = fieldsFrom (w.reverse ++ field) [] [] := by
  induction w generalizing field with
  | nil => rfl
  | cons b rest ih =>
    obtain ⟨hb, hrest⟩ := Bool.and_eq_true_iff.1 h
    have hblank : ¬ (CodePoint.ofAscii b).isBlank = true := by
      simpa using (Bool.and_eq_true_iff.1 hb).2
    rw [List.map_cons, fieldsFrom_other hblank, ih hrest, List.reverse_cons, List.append_assoc]
    rfl

theorem fields_of_solid {w : Text} (hne : w ≠ []) (h : w.all isSolid = true) : fields w = [w] := by
  rw [fields, codePoints_of_isAscii (isAscii_of_solid h), fieldsFrom_of_solid h]
  simp [fieldsFrom, hne]

theorem fields_spaced {ws : List Text} (h : ∀ w ∈ ws, w ≠ [] ∧ w.all isSolid = true) :
    isAscii (spaced ws) = true ∧ fields (spaced ws) = ws := by
  induction ws with
  | nil => exact ⟨rfl, by simp [spaced, fields, codePoints, codePointsFrom, fieldsFrom]⟩
  | cons w rest ih =>
    obtain ⟨⟨hne, hsolid⟩, hrest⟩ := List.forall_mem_cons.1 h
    have hascii := isAscii_of_solid hsolid
    cases rest with
    | nil =>
      rw [spaced, List.intercalate_singleton]
      exact ⟨hascii, fields_of_solid hne hsolid⟩
    | cons v more =>
      obtain ⟨hmore, hfields⟩ := ih hrest
      rw [spaced_cons_cons, fields_append_space hascii hmore, fields_of_solid hne hsolid, hfields]
      refine ⟨?_, rfl⟩
      unfold isAscii at *
      rw [List.all_append, List.all_cons, hascii, hmore]
      rfl

structure IsLine (l : Text) : Prop where
  newline_notMem : newline ∉ l
  return_notMem : carriageReturn ∉ l
  length_lt : l.length < lineLimit

theorem Fits.isLine {n : Nat} {t : Text} (h : Fits n t) (hn : n < lineLimit) : IsLine t where
  newline_notMem := fun hmem => (h.ne_of_mem hmem).1 rfl
  return_notMem := fun hmem => (h.ne_of_mem hmem).2.1 rfl
  length_lt := h.length_le.trans_lt hn

theorem Fits.spaced {n : Nat} {ws : List Text} (h : ∀ w ∈ ws, Fits n w) :
    Fits (ws.length * (n + 1)) (Text.spaced ws) := by
  have hspace : Fits 1 [space] := ⟨by decide, by decide⟩
  induction ws with
  | nil => exact ⟨Nat.zero_le _, rfl⟩
  | cons w rest ih =>
    obtain ⟨hw, hrest⟩ := List.forall_mem_cons.1 h
    cases rest with
    | nil =>
      rw [Text.spaced, List.intercalate_singleton]
      exact hw.mono (by simp)
    | cons v more =>
      have hjoined := (hw.append hspace).append (ih hrest)
      rw [List.append_assoc] at hjoined
      rw [spaced_cons_cons, List.length_cons, Nat.succ_mul, Nat.add_comm]
      exact hjoined

theorem flatMap_newline_eq_stacked (ls : List Text) : ls.flatMap (· ++ [newline]) = stacked (ls ++ [[]]) := by
  induction ls with
  | nil => rfl
  | cons l rest ih =>
    obtain ⟨q, more, heq⟩ := List.exists_cons_of_ne_nil
      (List.append_ne_nil_of_right_ne_nil rest (List.cons_ne_nil [] []))
    rw [List.flatMap_cons, ih, List.cons_append, heq, stacked_cons_cons, List.append_assoc]
    rfl

theorem delivered_append_nil (ls : List Text) : delivered (ls ++ [[]]) = ls := by
  induction ls with
  | nil => rfl
  | cons l rest ih =>
    rw [List.cons_append, delivered_cons (List.append_ne_nil_of_right_ne_nil rest (List.cons_ne_nil [] [])), ih]

theorem lines_flatMap_newline {ls : List Text} (h : ∀ l ∈ ls, IsLine l) :
    lines (ls.flatMap (· ++ [newline])) = ⟨ls, false⟩ := by
  have hempty : IsLine [] := ⟨List.not_mem_nil, List.not_mem_nil, by decide⟩
  have hall : ∀ l ∈ ls ++ [[]], IsLine l := List.forall_mem_append.2 ⟨h, List.forall_mem_singleton.2 hempty⟩
  have hchomp : ls.map chomp = ls := by
    rw [List.map_congr_left fun l hl => chomp_of_notMem (h l hl).return_notMem, List.map_id']
  have hpieces : pieces (stacked (ls ++ [[]])) = ls ++ [[]] :=
    pieces_stacked (by simp) fun l hl => (hall l hl).newline_notMem
  rw [flatMap_newline_eq_stacked, lines_of_short (by rw [hpieces]; exact fun l hl => (hall l hl).length_lt), hpieces,
    delivered_append_nil, hchomp]

theorem exists_digit_of_mem_hexPadded {width n : Nat} {b : UInt8} (h : b ∈ hexPadded width n) :
    ∃ d < 16, b = digit d := by
  rcases List.mem_append.1 h with hzero | hdigit
  · exact ⟨0, by decide, List.eq_of_mem_replicate hzero⟩
  · exact exists_digit_of_mem_digits (by decide) hdigit

theorem fits_hexPadded {n : Nat} (hn : n < 65536) : Fits 4 (hexPadded 4 n) where
  length_le := by
    have hlength : (hex n).length ≤ 4 := length_digits_le (by decide) hn
    rw [hexPadded, padZeros, List.length_append, List.length_replicate]
    omega
  inline := by
    rw [List.all_eq_true]
    intro b hb
    obtain ⟨d, hd, rfl⟩ := exists_digit_of_mem_hexPadded hb
    interval_cases d <;> decide

theorem readFrom?_padZeros (width : Nat) (t : Text) : readFrom? 16 0 (padZeros width t) = readFrom? 16 0 t := by
  have hzero : digitOf? 16 '0'.toUInt8 = some 0 := by decide
  unfold padZeros
  induction width - t.length with
  | zero => rfl
  | succ k ih =>
    rw [List.replicate_succ, List.cons_append, readFrom?, hzero]
    exact ih

theorem read?_hexPadded (width n : Nat) : read? 16 (hexPadded width n) = some n := by
  have hne : hexPadded width n ≠ [] := List.append_ne_nil_of_right_ne_nil _ (digits_ne_nil 16 n)
  have hread : readFrom? 16 0 (hexPadded width n) = some n := by
    rw [hexPadded, readFrom?_padZeros]
    exact readFrom?_digits (by decide) (by decide) n
  obtain ⟨b, rest, hcons⟩ := List.exists_cons_of_ne_nil hne
  rw [hcons] at hread ⊢
  exact hread

theorem trimStart_of_notMem {start t : Text} {b : UInt8} (hb : b ∈ start) (h : b ∉ t) : trimStart start t = t := by
  have hprefix : ¬ start.isPrefixOf t = true := by
    intro hp
    exact h ((List.isPrefixOf_iff_prefix.1 hp).subset hb)
  rw [trimStart, if_neg hprefix]

end Text

namespace Dump

theorem word?_wordText (word : UInt16) : word? (wordText word) = some word := by
  have hnot : ∀ b : UInt8, (List.range 16).all (fun d => Text.digit d != b) = true → b ∉ wordText word := by
    intro b hb hmem
    obtain ⟨d, hd, rfl⟩ := Text.exists_digit_of_mem_hexPadded hmem
    simpa using List.all_eq_true.1 hb d (List.mem_range.2 hd)
  have hlower : 0x78 ∉ wordText word := hnot 0x78 (by decide)
  have hupper : 0x58 ∉ wordText word := hnot 0x58 (by decide)
  rw [word?, Text.trimStart_of_notMem (by decide) hlower, Text.trimStart_of_notMem (by decide) hupper, wordText,
    Text.read?_hexPadded]
  simp [word.toNat_lt]

def rowText (row : List UInt16) : Text := Text.spaced (row.map wordText)

/-- A row that is filled up is written in the same way whether others follow or not. -/
theorem chunks_append {row : List UInt16} (h : row.length = wordsPerLine) (rest : List UInt16) :
    chunks (row ++ rest) = chunks row ++ chunks rest := by
  simp only [chunks]
  rw [List.zipIdx_append, List.map_append, List.length_append, Nat.zero_add, h]
  congr 1
  · apply List.map_congr_left
    rintro ⟨word, n⟩ hmem
    have hn : n < row.length := by simpa using List.snd_lt_of_mem_zipIdx hmem
    have hends : (n % wordsPerLine = wordsPerLine - 1 ∨ n + 1 = wordsPerLine + rest.length) ↔
        (n % wordsPerLine = wordsPerLine - 1 ∨ n + 1 = wordsPerLine) := by
      unfold wordsPerLine at *
      omega
    simp only [chunk, hends]
  · rw [List.zipIdx_eq_map_add, List.map_map]
    apply List.map_congr_left
    rintro ⟨word, n⟩ -
    have hends : ((wordsPerLine + n) % wordsPerLine = wordsPerLine - 1 ∨
        wordsPerLine + n + 1 = wordsPerLine + rest.length) ↔
          (n % wordsPerLine = wordsPerLine - 1 ∨ n + 1 = rest.length) := by
      unfold wordsPerLine
      omega
    simp only [chunk, Function.comp, hends]

theorem flatten_chunks_from {row : List UInt16} (hne : row ≠ []) {first count : Nat}
    (hcount : first + row.length = count) (hle : count ≤ wordsPerLine) :
    ((row.zipIdx first).map (chunk count)).flatten = rowText row ++ [Text.newline] := by
  induction row generalizing first with
  | nil => contradiction
  | cons word rest ih =>
    rw [List.length_cons] at hcount
    rw [List.zipIdx_cons, List.map_cons, List.flatten_cons, rowText, List.map_cons]
    cases rest with
    | nil =>
      have hends : chunk count (word, first) = wordText word ++ [Text.newline] := by
        unfold chunk
        rw [if_pos (.inr hcount)]
      rw [hends, Text.spaced, List.map_nil, List.intercalate_singleton]
      exact List.append_nil _
    | cons next more =>
      have hgoes : chunk count (word, first) = wordText word ++ [Text.space] := by
        unfold chunk
        rw [if_neg]
        rw [List.length_cons] at hcount
        unfold wordsPerLine at *
        omega
      rw [hgoes, ih (List.cons_ne_nil next more) (by omega), rowText, List.map_cons, Text.spaced_cons_cons]
      simp

theorem write_of_short {row : List UInt16} (hne : row ≠ []) (hle : row.length ≤ wordsPerLine) :
    write row = rowText row ++ [Text.newline] :=
  flatten_chunks_from hne (Nat.zero_add _) hle

theorem exists_rows (words : List UInt16) :
    ∃ rows : List (List UInt16), rows.flatten = words ∧ (∀ row ∈ rows, row.length ≤ wordsPerLine) ∧
      write words = (rows.map rowText).flatMap (· ++ [Text.newline]) := by
  induction hlength : words.length using Nat.strong_induction_on generalizing words with
  | _ n ih =>
    by_cases hempty : words = []
    · exact ⟨[], hempty.symm, by simp, by rw [hempty]; rfl⟩
    by_cases hshort : words.length ≤ wordsPerLine
    · refine ⟨[words], by simp, by simpa using hshort, ?_⟩
      rw [write_of_short hempty hshort]
      simp
    · have hrow : (words.take wordsPerLine).length = wordsPerLine := List.length_take_of_le (by omega)
      have hne : words.take wordsPerLine ≠ [] := by
        intro hnil
        rw [hnil] at hrow
        contradiction
      have hless : (words.drop wordsPerLine).length < n := by
        rw [List.length_drop, hlength]
        unfold wordsPerLine at *
        omega
      obtain ⟨rows, hflatten, hrows, hwrite⟩ := ih _ hless (words.drop wordsPerLine) rfl
      refine ⟨words.take wordsPerLine :: rows, ?_, List.forall_mem_cons.2 ⟨hrow.le, hrows⟩, ?_⟩
      · rw [List.flatten_cons, hflatten, List.take_append_drop]
      · have hfirst : (chunks (words.take wordsPerLine)).flatten = _ := write_of_short hne hrow.le
        nth_rewrite 1 [← List.take_append_drop wordsPerLine words]
        rw [write, chunks_append hrow, List.flatten_append, hfirst, ← write, hwrite, List.map_cons, List.flatMap_cons]

theorem readFields_map_wordText (line : Nat) (done row : List UInt16) :
    readFields line done (row.map wordText) = ⟨row.reverse ++ done, none⟩ := by
  induction row generalizing done with
  | nil => rfl
  | cons word rest ih =>
    rw [List.map_cons, readFields, word?_wordText]
    simp only [ih, List.reverse_cons, List.append_assoc, List.singleton_append]

theorem wordText_solid (word : UInt16) : wordText word ≠ [] ∧ (wordText word).all Text.isSolid = true := by
  refine ⟨List.append_ne_nil_of_right_ne_nil _ (Text.digits_ne_nil 16 word.toNat), ?_⟩
  rw [List.all_eq_true]
  intro b hb
  obtain ⟨d, hd, rfl⟩ := Text.exists_digit_of_mem_hexPadded hb
  interval_cases d <;> decide

theorem fits_wordText (word : UInt16) : Text.Fits 4 (wordText word) := Text.fits_hexPadded word.toNat_lt

theorem fits_rowText (row : List UInt16) : Text.Fits (row.length * 5) (rowText row) := by
  have hfits : ∀ t ∈ row.map wordText, Text.Fits 4 t := by
    intro t ht
    obtain ⟨word, -, rfl⟩ := List.mem_map.1 ht
    exact fits_wordText word
  have hrow := Text.Fits.spaced hfits
  rwa [List.length_map] at hrow

theorem fields_rowText (row : List UInt16) :
    Text.fields (Text.before Text.semicolon (rowText row)) = row.map wordText := by
  rw [(fits_rowText row).before_semicolon]
  apply (Text.fields_spaced _).2
  intro t ht
  obtain ⟨word, -, rfl⟩ := List.mem_map.1 ht
  exact wordText_solid word

theorem readLines_map_rowText (number : Nat) (done : List UInt16) (rows : List (List UInt16)) :
    readLines number done (rows.map rowText) = ⟨rows.flatten.reverse ++ done, none⟩ := by
  induction rows generalizing number done with
  | nil => rfl
  | cons row rest ih =>
    rw [List.map_cons, readLines, fields_rowText, readFields_map_wordText]
    simp only [ih, List.flatten_cons, List.reverse_append, List.append_assoc]

theorem read_write (words : List UInt16) : read (write words) = ⟨words, none⟩ := by
  obtain ⟨rows, rfl, hrows, hwrite⟩ := exists_rows words
  have hlines : Text.lines (write rows.flatten) = ⟨rows.map rowText, false⟩ := by
    rw [hwrite]
    apply Text.lines_flatMap_newline
    intro line hline
    obtain ⟨row, hrow, rfl⟩ := List.mem_map.1 hline
    apply (fits_rowText row).isLine
    have hlength := hrows row hrow
    unfold wordsPerLine at hlength
    unfold Text.lineLimit
    omega
  rw [read, hlines]
  simp only [readLines_map_rowText, List.append_nil, List.reverse_reverse]
  rfl

theorem length_chunks (words : List UInt16) : (chunks words).length = words.length := by
  rw [chunks, List.length_map, List.length_zipIdx]

theorem chunks_eq_mapIdx (words : List UInt16) :
    chunks words = words.mapIdx fun i word => wordText word ++
      [if i % 8 = 7 ∨ i + 1 = words.length then Text.newline else Text.space] := by
  rw [chunks, List.mapIdx_eq_zipIdx_map]
  rfl

/-- The writer takes the chunks in order while it has room, and one that it has no room for ends the writing. -/
theorem writeFrom_eq (count number room : Nat) (taken : List Text) (words : List UInt16) :
    writeFrom count number ⟨taken, room⟩ words =
      (⟨(((words.zipIdx number).map (chunk count)).take room).reverse ++ taken, room - words.length⟩,
        decide (words.length ≤ room)) := by
  induction words generalizing number room taken with
  | nil => simp [writeFrom]
  | cons word rest ih =>
    cases room with
    | zero => simp [writeFrom, Writer.put]
    | succ room =>
      have hput : (Writer.mk taken (room + 1)).put (chunk count (word, number)) =
          some ⟨chunk count (word, number) :: taken, room⟩ := rfl
      rw [writeFrom, hput]
      simp only [ih, List.zipIdx_cons, List.map_cons, List.take_succ_cons, List.reverse_cons, List.append_assoc,
        List.singleton_append, List.length_cons, Nat.add_sub_add_right, Nat.add_le_add_iff_right]

theorem writeSome_eq (room : Nat) (words : List UInt16) :
    writeSome room words = (((chunks words).take room).flatten, decide (words.length ≤ room)) := by
  rw [writeSome, writeFrom_eq]
  simp [Writer.text, chunks]

/-- A dump is read as the words it was written from. A writer that fails after a number of writes is left with
the chunks of as many words, or of all of them, which are the first part of the dump, and the failure is
reported if and only if a word is missing. -/
theorem write_exact (words : List UInt16) :
    read (write words) = ⟨words, none⟩ ∧
    (chunks words = words.mapIdx fun i word => wordText word ++
      [if i % 8 = 7 ∨ i + 1 = words.length then Text.newline else Text.space]) ∧
    ∀ room, (writeSome room words).1 = ((chunks words).take (min room words.length)).flatten ∧
      (writeSome room words).1 <+: write words ∧
      ((writeSome room words).2 = false ↔ room < words.length) := by
  refine ⟨read_write words, chunks_eq_mapIdx words, fun room => ⟨?_, ?_, ?_⟩⟩
  · rw [writeSome_eq, ← length_chunks, List.take_eq_take_min]
  · have hsplit := congrArg List.flatten (List.take_append_drop room (chunks words))
    rw [List.flatten_append] at hsplit
    rw [writeSome_eq]
    exact ⟨_, hsplit⟩
  · rw [writeSome_eq, decide_eq_false_iff_not, Nat.not_le]

end Dump
end Asm16
