import Asm16.Proofs.HexDump
import Asm16.Proofs.Logging
import Asm16.Proofs.Reassembly
import Asm16.Proofs.Streaming

/-! A dump that is listed and assembled again. In verbose mode a line of the listing is filled up with spaces
and ends in a comment with its address and words; its tokens are those of the instruction all the same. So
what a listing is assembled to does not depend on the mode, and it is what the disassembly is assembled to. -/

namespace Asm16

namespace Token

theorem lexed_spaces (n : Nat) : Lexed (List.replicate n Text.space) [] := by
  induction n with
  | zero => exact .nil
  | succ n ih => exact ih.blank (by decide)

end Token

namespace Text

theorem before_append_cons {b : UInt8} {t : Text} (h : b ∉ t) (u : Text) : before b (t ++ b :: u) = t := by
  have hfront : ∀ c ∈ t, (c != b) = true := by
    intro c hc
    simpa using ne_of_mem_of_not_mem hc h
  unfold before
  rw [List.takeWhile_append_of_pos hfront, List.takeWhile_cons_of_neg (by simp), List.append_nil]

theorem Fits.padRight {n : Nat} {t : Text} (h : Fits n t) (width : Nat) : Fits (n + width) (padRight width t) := by
  have hspaces : Fits width (List.replicate (width - t.length) space) := by
    refine ⟨by simp, ?_⟩
    rw [List.all_replicate]
    split <;> decide
  exact h.append hspaces

theorem IsLine.append_semicolon {t u : Text} {n m : Nat} (ht : Fits n t) (hu : Fits m u)
    (hlength : n + m + 1 < lineLimit) : IsLine (t ++ semicolon :: u) := by
  have hbytes : ∀ b ∈ t ++ semicolon :: u, b ≠ newline ∧ b ≠ carriageReturn := by
    intro b hb
    rcases List.mem_append.1 hb with hfront | hback
    · exact ⟨(ht.ne_of_mem hfront).1, (ht.ne_of_mem hfront).2.1⟩
    · rcases List.mem_cons.1 hback with rfl | hback
      · decide
      · exact ⟨(hu.ne_of_mem hback).1, (hu.ne_of_mem hback).2.1⟩
  refine ⟨fun hmem => (hbytes _ hmem).1 rfl, fun hmem => (hbytes _ hmem).2 rfl, ?_⟩
  have hfront := ht.length_le
  have hback := hu.length_le
  rw [List.length_append, List.length_cons]
  omega

end Text

theorem Instruction.size_le (inst : Instruction) : inst.size ≤ 3 := by
  have hcount : inst.operands.countP Operand.needsWord ≤ inst.operands.length := List.countP_le_length
  have hlength : inst.operands.length ≤ 2 := by cases inst <;> simp [operands]
  unfold size
  omega

theorem visit_bound_of_mem_visitsFrom (address : Nat) (words : List UInt16) :
    ∀ v ∈ visitsFrom address words, v.address + v.words.length ≤ address + words.length := by
  induction address, words using visit_induction with
  | truncated address words h =>
    rw [visitsFrom_of_truncated h]
    intro v hv
    contradiction
  | instruction address inst rest h ih =>
    have hlength := Instruction.length_words_of_plain h
    rw [visitsFrom_words_append h, List.length_append]
    refine List.forall_mem_cons.2 ⟨by simp, fun v hv => ?_⟩
    have hv := ih v hv
    omega
  | skipped address word rest h ih =>
    rw [visitsFrom_of_skipped h, List.length_cons]
    refine List.forall_mem_cons.2 ⟨by simp, fun v hv => ?_⟩
    have hv := ih v hv
    omega

/-- An instruction of the machine in its own words, which all lie in its memory. -/
structure Listing.Sound (l : Listing) : Prop where
  plain : l.instruction.Plain
  words_eq : l.words = l.instruction.words
  bound : l.address + l.words.length ≤ 65536

theorem Listing.Sound.length_words {l : Listing} (h : l.Sound) : l.words.length = l.instruction.size := by
  rw [h.words_eq, Instruction.length_words_of_plain h.plain]

theorem Listing.Sound.address_lt {l : Listing} (h : l.Sound) : l.address < 65536 := by
  have hbound := h.bound
  have hpos : 1 ≤ l.instruction.size := by
    unfold Instruction.size
    omega
  rw [h.length_words] at hbound
  omega

theorem sound_of_walk {words : List UInt16} (hlength : words.length ≤ 65536) {listings : List Listing}
    (h : walk words = listings.map .ok) : ∀ l ∈ listings, l.Sound := by
  obtain ⟨-, rfl⟩ := walkFrom_eq_map_ok_iff.1 h
  intro l hl
  obtain ⟨v, hv, hsome⟩ := List.mem_filterMap.1 hl
  have hbound := visit_bound_of_mem_visitsFrom 0 words v hv
  have hsound := sound_of_mem_visitsFrom v hv
  obtain ⟨inst, hinst, rfl⟩ := Option.map_eq_some_iff.1 hsome
  rw [Visit.Sound, hinst] at hsound
  exact ⟨hsound.1, hsound.2, by simp only; omega⟩

namespace CommandLine

def listingNote (l : Listing) : Text :=
  ascii " " ++ Text.hexPadded 4 l.address ++ ascii ": [" ++ Dump.rowText l.words ++ ascii "]"

def listingBody (verbose : Bool) (l : Listing) : Text :=
  if verbose then Text.padRight 24 l.text ++ ascii " " ++ Text.semicolon :: listingNote l else l.text

theorem listingLine_eq (verbose : Bool) (l : Listing) :
    listingLine verbose l = listingBody verbose l ++ [Text.newline] := by
  have hmark : ascii " ; " = ascii " " ++ Text.semicolon :: ascii " " := by decide
  unfold listingLine listingBody listingNote
  split
  · rw [hmark]
    simp only [List.append_assoc, List.cons_append]
    rfl
  · rfl

theorem fits_listingNote {l : Listing} (h : l.Sound) : Text.Fits 24 (listingNote l) := by
  have hopen : Text.Fits 3 (ascii ": [") := ⟨by decide, by decide⟩
  have hclose : Text.Fits 1 (ascii "]") := ⟨by decide, by decide⟩
  have hspace : Text.Fits 1 (ascii " ") := ⟨by decide, by decide⟩
  have hshort : l.words.length ≤ 3 := by
    rw [h.length_words]
    exact l.instruction.size_le
  have hrow := (Dump.fits_rowText l.words).mono (Nat.mul_le_mul_right 5 hshort)
  exact (((hspace.append (Text.fits_hexPadded h.address_lt)).append hopen).append hrow).append hclose

theorem fits_listingFront {l : Listing} (h : l.Sound) : Text.Fits 64 (Text.padRight 24 l.text ++ ascii " ") := by
  have hspace : Text.Fits 1 (ascii " ") := ⟨by decide, by decide⟩
  exact ((Instruction.fits_text h.plain).padRight 24).append hspace

theorem isLine_listingBody {l : Listing} (h : l.Sound) (verbose : Bool) : Text.IsLine (listingBody verbose l) := by
  unfold listingBody
  split
  · exact Text.IsLine.append_semicolon (fits_listingFront h) (fits_listingNote h) (by decide)
  · exact (Instruction.fits_text h.plain).isLine (by decide)

theorem ofLine_listingBody {l : Listing} (h : l.Sound) (verbose : Bool) :
    Token.ofLine (listingBody verbose l) = l.instruction.tokens := by
  unfold listingBody
  split
  · have hsemicolon : Text.semicolon ∉ Text.padRight 24 l.text ++ ascii " " :=
      fun hmem => ((fits_listingFront h).ne_of_mem hmem).2.2 rfl
    have hlexed := Instruction.lexed_text h.plain rfl (Token.lexed_spaces (24 - l.text.length + 1))
    rw [List.append_nil, List.replicate_succ', ← List.append_assoc] at hlexed
    rw [Token.ofLine, Text.before_append_cons hsemicolon]
    exact Token.tokensFrom_eq_iff.2 hlexed
  · exact Instruction.ofLine_text h.plain

theorem ofText_flatten_listings {listings : List Listing} (h : ∀ l ∈ listings, l.Sound) (verbose : Bool) :
    Assembly.Source.ofText (listings.map (listingLine verbose)).flatten =
      ⟨listings.map (listingBody verbose), none⟩ := by
  have hbodies : ∀ t ∈ listings.map (listingBody verbose), Text.IsLine t := by
    intro t ht
    obtain ⟨l, hl, rfl⟩ := List.mem_map.1 ht
    exact isLine_listingBody (h l hl) verbose
  have hflat : (listings.map (listingLine verbose)).flatten =
      (listings.map (listingBody verbose)).flatMap (· ++ [Text.newline]) := by
    rw [List.flatMap_map, List.flatMap_def]
    exact congrArg List.flatten (List.map_congr_left fun l _ => listingLine_eq verbose l)
  have hlines : Text.lines (listings.map (listingLine verbose)).flatten = _ :=
    hflat ▸ Text.lines_flatMap_newline hbodies
  rw [Assembly.Source.ofText, hlines]
  rfl

theorem plain_of_sound {listings : List Listing} (h : ∀ l ∈ listings, l.Sound) :
    ∀ inst ∈ listings.map Listing.instruction, inst.Plain := by
  intro inst hinst
  obtain ⟨l, hl, rfl⟩ := List.mem_map.1 hinst
  exact (h l hl).plain

/-- A listing is assembled to its instructions in their most compact form, in verbose mode or not. -/
theorem exists_parse_listings {listings : List Listing} (h : ∀ l ∈ listings, l.Sound)
    (hfits : ((listings.map Listing.instruction).map fun inst => inst.compact.size).sum ≤ Assembly.memorySize)
    (verbose : Bool) (evaluate : Assembly.Evaluator) :
    ∃ p, Assembly.parse evaluate (Assembly.Source.ofText (listings.map (listingLine verbose)).flatten) = .ok p ∧
      p.words = ((listings.map Listing.instruction).map Instruction.compact).flatMap Instruction.words := by
  have htokens : (listings.map (listingBody verbose)).map Token.ofLine =
      (listings.map Listing.instruction).map Instruction.tokens := by
    rw [List.map_map, List.map_map]
    exact List.map_congr_left fun l hl => ofLine_listingBody (h l hl) verbose
  rw [ofText_flatten_listings h verbose]
  exact Assembly.exists_parse_of_plain evaluate (plain_of_sound h) rfl htokens hfits

namespace Workspace

theorem run_listing {w : Workspace} {arguments : List Text} {o : Options} {words : List UInt16}
    (h : w.Opens arguments o (Dump.write words)) (hmode : o.compile = []) {listings : List Listing}
    (hwalk : walk words = listings.map .ok) :
    w.run arguments = ⟨0, (listings.map (listingLine o.verbose)).flatten, [], w.files⟩ := by
  obtain ⟨hleft, hvisits⟩ := walkFrom_eq_map_ok_iff.1 hwalk
  have hlistings : (visits words).filterMap Visit.listing? = listings := hvisits
  have hreport : report o (.text (Dump.write words)) = ⟨[], listings.map (listingLine o.verbose), none⟩ := by
    rw [report, hmode, if_pos List.isEmpty_nil, disassembleReport_of_read (Dump.read_write words), hlistings,
      if_pos hleft]
  rw [h.run_eq, hreport, finish_stdout]
  rfl

theorem run_assembly {w : Workspace} {arguments : List Text} {o : Options} {t : Text}
    (h : w.Opens arguments o t) (hmode : o.compile ≠ []) {p : Program}
    (hparse : Assembly.parse (Constant.evaluate? o.constants) (Assembly.Source.ofText t) = .ok p) :
    (w.run arguments).exit = 0 ∧ (w.run arguments).stdout = Dump.write p.words := by
  have hreport : report o (.text t) = assembleReport o (.text t) := if_neg (by simpa using hmode)
  have hresult := (Assembly.result_parseLogged o.verbose (Constant.evaluate? o.constants)
    (Assembly.Source.ofText t)).trans hparse
  rw [h.run_eq, hreport, finish_stdout, assembleReport]
  simp only
  generalize Assembly.parseLogged o.verbose (Constant.evaluate? o.constants)
    (Assembly.Source.ofText t) = logged at hresult ⊢
  obtain ⟨result, log⟩ := logged
  obtain rfl : result = .ok p := hresult
  exact ⟨rfl, rfl⟩

/-- A dump that is listed, in verbose mode or not, and assembled from the listing again is the dump of what
its disassembly is assembled to. -/
theorem run_assemble_run_disassemble {words : List UInt16} (hlength : words.length ≤ 65536) {text : Text}
    (h : disassemble words = .ok text) :
    ∃ shorter, Assembly.assemble text = .ok shorter ∧
      ∀ (w : Workspace) (arguments : List Text) (o : Options), w.Opens arguments o (Dump.write words) →
        o.compile = [] → (w.run arguments).exit = 0 ∧ (w.run arguments).stderr = [] ∧
          ∀ (w' : Workspace) (arguments' : List Text) (o' : Options),
            w'.Opens arguments' o' (w.run arguments).stdout → o'.compile ≠ [] →
              (w'.run arguments').exit = 0 ∧ (w'.run arguments').stdout = Dump.write shorter := by
  obtain ⟨listings, hwalk, rfl⟩ := disassemble_eq_ok_iff.1 h
  have hsound := sound_of_walk hlength hwalk
  have hfits : ((listings.map Listing.instruction).map fun inst => inst.compact.size).sum ≤
      Assembly.memorySize := by
    refine (Instruction.sum_size_compact_le _).trans (le_trans ?_ hlength)
    rw [List.map_map]
    exact (plain_of_walkFrom hwalk).2
  have hassemble := Assembly.assemble_stacked (plain_of_sound hsound) hfits
  rw [List.map_map] at hassemble
  refine ⟨_, hassemble, fun w arguments o hopens hmode => ?_⟩
  rw [run_listing hopens hmode hwalk]
  refine ⟨rfl, rfl, fun w' arguments' o' hopens' hmode' => ?_⟩
  obtain ⟨p, hparse, hwords⟩ := exists_parse_listings hsound hfits o.verbose (Constant.evaluate? o'.constants)
  rw [← hwords]
  exact run_assembly hopens' hmode' hparse

theorem run_assemble_run_disassemble_long_literal :
    (run { stdin := Dump.write [0x7c01, 0x0003, 0x0000, 0x7dc1, 0xabcd] } [ascii "-d", ascii "-", ascii "-v"]).stdout =
      ascii "SET A, 0x3               ; 0000: [7c01 0003]\nSET PC, 0xabcd           ; 0003: [7dc1 abcd]\n" ∧
    ∀ arguments ∈ [[ascii "-d", ascii "-"], [ascii "-d", ascii "-", ascii "-v"]],
      (run { stdin := (run { stdin := Dump.write [0x7c01, 0x0003, 0x0000, 0x7dc1, 0xabcd] } arguments).stdout }
        [ascii "-c", ascii "-"]).stdout = ascii "8c01 7dc1 abcd\n" := by
  have htext : disassemble [0x7c01, 0x0003, 0x0000, 0x7dc1, 0xabcd] =
      .ok (ascii "SET A, 0x3\nSET PC, 0xabcd") := by decide +kernel
  have hwords : Assembly.assemble (ascii "SET A, 0x3\nSET PC, 0xabcd") = .ok [0x8c01, 0x7dc1, 0xabcd] := by
    decide +kernel
  have hdump : Dump.write [0x8c01, 0x7dc1, 0xabcd] = ascii "8c01 7dc1 abcd\n" := by decide +kernel
  have hverbose : prepare [ascii "-d", ascii "-", ascii "-v"] =
      .ok { verbose := true, disassemble := ascii "-" } := rfl
  have hcompile : prepare [ascii "-c", ascii "-"] = .ok { compile := ascii "-" } := rfl
  obtain ⟨shorter, hassemble, hruns⟩ := run_assemble_run_disassemble (by decide) htext
  obtain rfl := Except.ok.inj (hassemble.symm.trans hwords)
  refine ⟨by decide +kernel, ?_⟩
  simp only [List.forall_mem_cons, ← hdump]
  refine ⟨?_, ?_, fun _ h => absurd h List.not_mem_nil⟩
  · exact ((hruns _ _ _ (opens_stdin _ prepare_disassemble_stdin rfl rfl) rfl).2.2 _ _ _
      (opens_stdin _ hcompile rfl rfl) (List.cons_ne_nil _ _)).2
  · exact ((hruns _ _ _ (opens_stdin _ hverbose rfl rfl) rfl).2.2 _ _ _
      (opens_stdin _ hcompile rfl rfl) (List.cons_ne_nil _ _)).2

end Workspace
end CommandLine
end Asm16
