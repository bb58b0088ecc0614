import Asm16.CommandLine.Workspace
import Asm16.Proofs.Rendering
import Asm16.Proofs.Visit

/-! Listing a dump from the standard input. The command writes each instruction when it is met and fails
where the words are cut off, whereas a disassembly is one text or one error. What is written is the text of
the disassembly as far as there is one: all of it, or that of the words before the instruction that is cut
off. -/

namespace Asm16

theorem walkFrom_flatMap_visits (address : Nat) (words : List UInt16) :
    walkFrom address [] ((visitsFrom address words).flatMap Visit.words) =
      ((visitsFrom address words).filterMap Visit.listing?).map .ok := by
  induction address, words using visit_induction with
  | truncated address words h =>
    rw [visitsFrom_of_truncated h]
    exact walkFrom_nil address []
  | instruction address inst rest h ih =>
    rw [visitsFrom_words_append h, List.flatMap_cons, walkFrom_words_append h, ih]
    rfl
  | skipped address word rest h ih =>
    obtain ⟨hbasic, hjsr, -⟩ := Instruction.decode_cons_eq_skipped_iff.1 h
    have hdecode : ∀ more : List UInt16, Instruction.decode (word :: more) = .skipped more :=
      fun more => Instruction.decode_cons_eq_skipped_iff.2 ⟨hbasic, hjsr, rfl⟩
    rw [visitsFrom_of_skipped h, List.flatMap_cons, List.singleton_append, walkFrom_of_skipped (hdecode _), ih]
    rfl

theorem take_stopFrom (words : List UInt16) :
    words.take (stopFrom 0 words) = (visits words).flatMap Visit.words := by
  have hsplit := flatMap_words_visitsFrom_append_leftover 0 words
  have hlength := congrArg List.length hsplit
  rw [List.length_append] at hlength
  have hstop : stopFrom 0 words = ((visits words).flatMap Visit.words).length := by
    unfold stopFrom visits
    omega
  rw [hstop]
  nth_rewrite 2 [← hsplit]
  exact List.take_left

theorem disassemble_take_stopFrom (words : List UInt16) :
    disassemble (words.take (stopFrom 0 words)) =
      .ok (Text.stacked (((visits words).filterMap Visit.listing?).map Listing.text)) := by
  rw [disassemble_eq_ok_iff, take_stopFrom]
  exact ⟨_, walkFrom_flatMap_visits 0 words, rfl⟩

namespace Text

theorem flatMap_append_newline {texts : List Text} (h : texts ≠ []) :
    texts.flatMap (· ++ [newline]) = stacked texts ++ [newline] := by
  induction texts with
  | nil => contradiction
  | cons t rest ih =>
    cases rest with
    | nil =>
      rw [stacked, List.intercalate_singleton, List.flatMap_singleton]
    | cons u more =>
      rw [List.flatMap_cons, ih (List.cons_ne_nil u more), stacked_cons_cons, List.append_assoc, List.append_assoc]
      rfl

theorem hexSigned_natCast (width n : Nat) : hexSigned width n = hexPadded width n := by
  have hsign : ¬ (n : Int) < 0 := Int.not_lt.2 (Int.natCast_nonneg n)
  rw [hexSigned, signed, if_neg hsign, if_neg hsign, Int.natAbs_natCast]

end Text

namespace CommandLine

theorem listingFrom_map_ok_append (o : Options) (lines : List Text) (listings : List Listing)
    (items : List WalkItem) :
    listingFrom o lines (listings.map .ok ++ items) =
      listingFrom o ((listings.map (listingLine o.verbose)).reverse ++ lines) items := by
  induction listings generalizing lines with
  | nil => rfl
  | cons l ls ih =>
    rw [List.map_cons, List.cons_append, listingFrom, ih, List.map_cons, List.reverse_cons, List.append_assoc]
    rfl

theorem disassembleReport_of_read {t : Text} {words : List UInt16} (h : Dump.read t = ⟨words, none⟩)
    (o : Options) :
    disassembleReport o (.text t) =
      ⟨[], ((visits words).filterMap Visit.listing?).map (listingLine o.verbose),
        if leftover words = [] then none
        else some (about o.disassemble (DecodeError.toError ⟨stopFrom 0 words, .wordsTruncated⟩).message)⟩ := by
  have hwalk : walk words = _ := walkFrom_eq 0 words
  unfold disassembleReport
  simp only [h]
  rw [hwalk, listingFrom_map_ok_append]
  split <;> simp [listingFrom, visits]

theorem message_wordsTruncated (address : Nat) :
    (DecodeError.toError ⟨address, .wordsTruncated⟩).message =
      ascii "address 0x" ++ Text.hexPadded 4 address ++ ascii " word stream truncated" := by
  have hplaces : (DecodeError.toError ⟨address, .wordsTruncated⟩).places.flatMap Place.message =
      ascii "address 0x" ++ Text.hexPadded 4 address ++ ascii " " := by
    change Place.message (.address address) ++ [] = _
    rw [List.append_nil, Place.message, Text.hexSigned_natCast]
  unfold Error.message
  rw [hplaces, List.append_assoc]
  rfl

namespace Workspace

/-- A call with the given options that reads a text and writes to the standard output. -/
structure Opens (w : Workspace) (arguments : List Text) (o : Options) (t : Text) : Prop where
  prepare_eq : prepare arguments = .ok o
  output_eq : w.openOutput o.output = .ok .stdout
  input_eq : w.openInput o.input = .ok (.text t)

theorem Opens.run_eq {w : Workspace} {arguments : List Text} {o : Options} {t : Text}
    (h : w.Opens arguments o t) : w.run arguments = w.finish o .stdout (report o (.text t)) := by
  have hin : (w.created .stdout).openInput o.input = .ok (.text t) := h.input_eq
  unfold run
  simp only [h.prepare_eq, h.output_eq, hin]
  rfl

theorem opens_stdin (w : Workspace) {arguments : List Text} {o : Options} (h : prepare arguments = .ok o)
    (houtput : o.output = ascii "-") (hinput : o.input = ascii "-") : w.Opens arguments o w.stdin where
  prepare_eq := h
  output_eq := by
    unfold openOutput
    rw [if_pos houtput]
  input_eq := by
    unfold openInput
    rw [if_pos hinput]

theorem prepare_disassemble_stdin :
    prepare [ascii "-d", ascii "-"] = .ok { disassemble := ascii "-" } := rfl

theorem finish_stdout (w : Workspace) (o : Options) (r : Report) :
    w.finish o .stdout r =
      ⟨if r.failure.isSome then 1 else 0, r.chunks.flatten, r.log ++ failureLine r.failure, w.files⟩ := rfl

theorem failureLine_wordsTruncated (address : Nat) :
    failureLine (some (about (ascii "-") (DecodeError.toError ⟨address, .wordsTruncated⟩).message)) =
      ascii "-: address 0x" ++ Text.hexPadded 4 address ++ ascii " word stream truncated\n" := by
  rw [message_wordsTruncated, failureLine, about]
  simp only [List.append_assoc]
  rfl

theorem run_disassemble_stdin_of_read (w : Workspace) {words : List UInt16}
    (h : Dump.read w.stdin = ⟨words, none⟩) :
    w.run [ascii "-d", ascii "-"] = w.finish { disassemble := ascii "-" } .stdout
      ⟨[], ((visits words).filterMap Visit.listing?).map (listingLine false),
        if leftover words = [] then none
        else some (about (ascii "-") (DecodeError.toError ⟨stopFrom 0 words, .wordsTruncated⟩).message)⟩ := by
  have hreport : report { disassemble := ascii "-" } (.text w.stdin) = _ :=
    disassembleReport_of_read h { disassemble := ascii "-" }
  rw [(opens_stdin w prepare_disassemble_stdin rfl rfl).run_eq, hreport]

/-- A dump that can be read is listed as it is disassembled. If that succeeds, the text is written with a
newline behind it, and nothing at all if there is no instruction. If not, the lines written are those of the
words before the address at which the words are cut off, and the message gives that address. -/
theorem run_disassemble_stdin (w : Workspace) {words : List UInt16} (h : Dump.read w.stdin = ⟨words, none⟩) :
    (∀ t, disassemble words = .ok t →
      w.run [ascii "-d", ascii "-"] = ⟨0, if walk words = [] then [] else t ++ [Text.newline], [], w.files⟩) ∧
    ∀ e, disassemble words = .error e → ∃ listings : List Listing,
      walk words = listings.map .ok ++ [.error e] ∧
      disassemble (words.take e.address) = .ok (Text.stacked (listings.map Listing.text)) ∧
      w.run [ascii "-d", ascii "-"] = ⟨1, listings.flatMap fun l => l.text ++ [Text.newline],
        ascii "-: address 0x" ++ Text.hexPadded 4 e.address ++ ascii " word stream truncated\n", w.files⟩ := by
  have hrun := run_disassemble_stdin_of_read w h
  rw [finish_stdout] at hrun
  constructor
  · intro t ht
    obtain ⟨listings, hwalk, rfl⟩ := disassemble_eq_ok_iff.1 ht
    obtain ⟨hleft, hvisits⟩ := walkFrom_eq_map_ok_iff.1 hwalk
    have hlistings : (visits words).filterMap Visit.listing? = listings := hvisits
    -- The text has newlines only between the lines, the output also behind the last one.
    have hout : (listings.map (listingLine false)).flatten =
        if walk words = [] then [] else Text.stacked (listings.map Listing.text) ++ [Text.newline] := by
      rw [hwalk]
      split
      · rename_i hnil
        rw [List.map_eq_nil_iff.1 hnil]
        rfl
      · rename_i hne
        have htexts : listings.map Listing.text ≠ [] := by simpa using hne
        rw [← Text.flatMap_append_newline htexts, List.flatMap_map]
        rfl
    rw [hrun, if_pos hleft, hlistings, hout]
    rfl
  · intro e he
    obtain ⟨hleft, rfl⟩ := disassemble_eq_error_iff.1 he
    refine ⟨_, walk_eq_of_leftover_ne_nil hleft, disassemble_take_stopFrom words, ?_⟩
    rw [hrun, if_neg hleft, failureLine_wordsTruncated]
    rfl

theorem run_disassemble_stdin_cut_off :
    Dump.read (ascii "0x8401 0 ; one\n7C01") = ⟨[0x8401, 0, 0x7c01], none⟩ ∧
    disassemble [0x8401, 0, 0x7c01] = .error ⟨2, .wordsTruncated⟩ ∧
    (run { stdin := ascii "0x8401 0 ; one\n7C01" } [ascii "-d", ascii "-"]).exit = 1 ∧
    (run { stdin := ascii "0x8401 0 ; one\n7C01" } [ascii "-d", ascii "-"]).stdout = ascii "SET A, 0x1\n" ∧
    (run { stdin := ascii "0x8401 0 ; one\n7C01" } [ascii "-d", ascii "-"]).stderr =
      ascii "-: address 0x0002 word stream truncated\n" := by
  have hread : Dump.read (ascii "0x8401 0 ; one\n7C01") = ⟨[0x8401, 0, 0x7c01], none⟩ := by decide +kernel
  have herror : disassemble [0x8401, 0, 0x7c01] = .error ⟨2, .wordsTruncated⟩ := by decide +kernel
  have hwalk : walk [0x8401, 0, 0x7c01] =
      [⟨0, [0x8401], .basic ⟨1⟩ (.register ⟨0⟩) (.short ⟨1, none⟩)⟩].map .ok ++
        [.error ⟨2, .wordsTruncated⟩] := by decide +kernel
  obtain ⟨listings, hlistings, -, hrun⟩ :=
    (run_disassemble_stdin { stdin := ascii "0x8401 0 ; one\n7C01" } hread).2 _ herror
  have hsame := List.append_cancel_right (hlistings.symm.trans hwalk)
  obtain rfl := (List.map_inj_right fun _ _ => Except.ok.inj).1 hsame
  rw [hrun]
  exact ⟨hread, herror, rfl, by decide +kernel, by decide +kernel⟩

end Workspace
end CommandLine
end Asm16
