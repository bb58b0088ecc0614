import Asm16.Proofs.Rewriting

/-! Addresses in the place of labels. A reference may be replaced by the number it stands for wherever the
number takes as much room as the label did: inside brackets and in data both take a word, and elsewhere they
do unless the label was declared too late for its small address to be put into the operand field. The words
of a source and the addresses of its labels are then the same as before. -/

namespace Asm16.Assembly

def addressText (address : UInt16) : Text := Value.text ⟨address, none⟩

/-- What takes the place of a label, which is the label itself where its address would be shorter. -/
def resolveLabel (symbols : Symbols) (early : Text → Bool) (own : Bool) (label : Text) : Text :=
  match symbols[label]? with
  | some address => if own || early label || decide (0x1f < address) then addressText address else label
  | none => label

def resolveFrom (symbols : Symbols) (early : Text → Bool) (chosen : Nat → Bool) :
    Bool → Nat → List Text → List Text
  | _, _, [] => []
  | own, position, token :: rest =>
    (if Grammar.isReference token && chosen position then resolveLabel symbols early own token else token) ::
      resolveFrom symbols early chosen (Grammar.ownWord own token) (position + 1) rest

def resolveOperands (symbols : Symbols) (early : Text → Bool) (chosen : Nat → Bool) (mnemonic : Text)
    (operands : List Text) : List Text :=
  resolveFrom symbols early chosen (Grammar.isData (mnemonic :: operands)) 0 operands

/-- A text with chosen references replaced by addresses. A reference is chosen by the number of its line and
by its position among the tokens after the mnemonic. -/
def resolve (symbols : Symbols) (chosen : Nat → Nat → Bool) (t : Text) : Text :=
  Token.rewrite (fun number => editRow id
    (resolveOperands symbols (declaredBy (Source.ofText t).lines number) (chosen number))) t

section
variable {evaluate : Evaluator} {symbols : Symbols} {early : Text → Bool}

def Resolves (symbols : Symbols) (early : Text → Bool) (own : Bool) (label token : Text) : Prop :=
  token = label ∨ ∃ address, symbols[label]? = some address ∧ token = addressText address ∧
    (own = true ∨ early label = true ∨ 0x1f < address)

theorem resolves_resolveLabel (own : Bool) (label : Text) :
    Resolves symbols early own label (resolveLabel symbols early own label) := by
  unfold resolveLabel
  split
  · rename_i address haddress
    split
    · rename_i hfits
      exact .inr ⟨address, haddress, rfl, by simpa [or_assoc] using hfits⟩
    · exact .inl rfl
  · exact .inl rfl

theorem restated_resolveFrom (chosen : Nat → Bool) (own : Bool) (position : Nat) (operands : List Text) :
    Grammar.Restated (Resolves symbols early) own operands
      (resolveFrom symbols early chosen own position operands) := by
  induction operands generalizing own position with
  | nil => exact .nil own
  | cons token rest ih =>
    rw [resolveFrom]
    by_cases hreference : Grammar.isReference token = true
    · rw [Grammar.ownWord_of_isReference hreference]
      refine .label hreference ?_ (ih own _)
      split
      · exact resolves_resolveLabel own token
      · exact .inl rfl
    · rw [if_neg (by simp [hreference])]
      exact .other (Bool.eq_false_iff.2 hreference) (ih _ _)

theorem agrees_of_resolves {own : Bool} {label token : Text} (hreference : Grammar.isReference label = true)
    (h : Resolves symbols early own label token) :
    Grammar.Agrees evaluate symbols symbols early early own label token := by
  rcases h with rfl | ⟨address, haddress, rfl, hroom⟩
  · exact Grammar.agrees_label (fun _ => Grammar.isReference_iff.1 hreference) (fun _ => id) (fun _ => rfl) own
  · intro found hfound
    obtain rfl : found = address := Option.some.inj (hfound.symm.trans haddress)
    refine ⟨.number found, Value.spelt_text evaluate rfl, rfl, ?_⟩
    rintro rfl
    rcases hroom with howned | hearly | hlarge
    · contradiction
    · rw [hearly]
      rfl
    · have hlong : ¬ found ≤ 0x1f := UInt16.not_le.2 hlarge
      simp only [hlong, and_false]

theorem plain_of_resolves {own : Bool} {label token : Text} (hreference : Grammar.isReference label = true)
    (h : Resolves symbols early own label token) : Token.Plain token := by
  rcases h with rfl | ⟨address, -, rfl, -⟩
  · exact plain_of_isLabel (Bool.and_eq_true_iff.1 hreference).1
  · obtain ⟨hne, -, hplain⟩ := Value.isWord_text (v := ⟨address, none⟩) rfl
    exact ⟨hne, hplain⟩

theorem declaredBy_eq_decide {lines : List Text} {before rest : List (List Text)} {row : List Text}
    (hrows : lines.map Token.ofLine = before ++ row :: rest) :
    declaredBy lines (before.length + 1 : Nat) =
      fun label => decide (label ∈ before.flatMap lineLabels ++ lineLabels row) := by
  have hlabels : before.flatMap lineLabels ++ lineLabels row =
      ((lines.map Token.ofLine).take (before.length + 1)).flatMap lineLabels := by
    rw [hrows, List.take_length_add_append, List.flatMap_append]
    simp
  funext label
  rw [Bool.eq_iff_iff, declaredBy_eq_true_iff, decide_eq_true_eq, hlabels, List.mem_flatMap]
  constructor
  · rintro ⟨n, hn, hmem⟩
    obtain ⟨i, line, rfl, hline, hlabel⟩ := mem_declarations_iff.1 hmem
    refine ⟨Token.ofLine line, List.mem_of_getElem? (i := i) ?_, hlabel⟩
    rw [List.getElem?_take_of_lt (by omega), List.getElem?_map, hline, Option.map_some]
  · rintro ⟨other, hother, hlabel⟩
    obtain ⟨i, hi⟩ := List.mem_iff_getElem?.1 hother
    rw [List.getElem?_take, List.getElem?_map] at hi
    split at hi
    · obtain ⟨line, hline, rfl⟩ := Option.map_eq_some_iff.1 hi
      exact ⟨1 + i, by omega, mem_declarations_iff.2 ⟨i, line, rfl, hline, hlabel⟩⟩
    · contradiction

theorem mirrors_resolve {known row : List Text} (chosen : Nat → Bool)
    (hearly : early = fun label => decide (label ∈ known ++ lineLabels row)) :
    Mirrors evaluate symbols symbols known known row
      (editRow id (resolveOperands symbols early chosen) row) := by
  subst hearly
  apply mirrors_editRow
  · intro address hplaces
    rwa [List.map_id]
  · intro mnemonic operands
    rw [List.map_id]
    refine (restated_resolveFrom chosen _ 0 operands).mono ?_
    intro own label token hreference
    exact agrees_of_resolves hreference

theorem keeps_resolve (chosen : Nat → Bool) (row : List Text) :
    List.Forall₂ Token.Keeps row (editRow id (resolveOperands symbols early chosen) row) := by
  apply keeps_editRow
  · exact fun label _ => .inl rfl
  · intro mnemonic operands _
    apply keeps_of_restated (restated_resolveFrom chosen _ 0 operands)
    intro own label token _ hreference
    exact plain_of_resolves hreference

/-- References replaced by addresses of the same length change neither the words of a source nor its
symbols. -/
theorem parse_resolve {text : Text} {p : Program} (hparse : parse evaluate (Source.ofText text) = .ok p)
    (chosen : Nat → Nat → Bool) (hfits : (Text.lines (resolve p.symbols chosen text)).overlong = false) :
    ∃ q, parse evaluate (Source.ofText (resolve p.symbols chosen text)) = .ok q ∧ q.words = p.words ∧
      q.entries.map (fun e => (e.line, e.address, e.words)) = p.entries.map (fun e => (e.line, e.address, e.words)) ∧
      ∀ label : Text, q.symbols[label]? = p.symbols[label]? := by
  obtain ⟨q, hq, hentries, hsymbols⟩ := exists_parse_rewrite (g := id)
    (r := fun number => resolveOperands p.symbols (declaredBy (Source.ofText text).lines number) (chosen number)) hparse
    (fun number known known' rows => known' = known ∧ ∃ before,
      (Source.ofText text).lines.map Token.ofLine = before ++ rows ∧ number = before.length + 1 ∧
        known = before.flatMap lineLabels) ⟨rfl, [], rfl, rfl, rfl⟩
    (by
      rintro _ _ _ row rest ⟨rfl, before, hrows, rfl, rfl⟩ _
      refine ⟨mirrors_resolve _ (declaredBy_eq_decide hrows), by rw [List.map_id], before ++ [row], ?_, ?_, ?_⟩
      · rw [hrows, List.append_assoc]
        rfl
      · rw [List.length_append]
        rfl
      · rw [List.flatMap_append, List.flatMap_singleton])
    (by simp) (fun number row _ => keeps_resolve (chosen number) row) hfits
  refine ⟨q, hq, ?_, ?_, hsymbols⟩
  · rw [Program.words, Program.words, hentries, List.flatMap_map]
  · rw [hentries, List.map_map]
    rfl

theorem parse_resolve_all :
    ∃ p q, parse Constant.closed (Source.ofText (ascii ":on SET [off+B], off ; on\n:off DAT on, off")) = .ok p ∧
      parse Constant.closed (Source.ofText (ascii ":on SET [0x3+B], off ; on\n:off DAT 0x0, 0x3")) = .ok q ∧
      q.words = p.words ∧ p.words = [0x7d11, 3, 3, 0, 3] ∧ q.symbols[ascii "off"]? = some 3 := by
  -- The second reference stays: it comes before its label, whose address is small.
  have hparse : (parse Constant.closed
      (Source.ofText (ascii ":on SET [off+B], off ; on\n:off DAT on, off"))).map (fun p =>
      (p.words, p.symbols[ascii "off"]?,
        resolve p.symbols (fun _ _ => true) (ascii ":on SET [off+B], off ; on\n:off DAT on, off"))) =
      .ok ([0x7d11, 3, 3, 0, 3], some 3, ascii ":on SET [0x3+B], off ; on\n:off DAT 0x0, 0x3") := by
    decide +kernel
  obtain ⟨p, hp, hvalues⟩ := map_eq_ok_iff.1 hparse
  simp only [Prod.mk.injEq] at hvalues
  obtain ⟨hwords, hoff, htext⟩ := hvalues
  obtain ⟨q, hq, hsame, -, hsymbols⟩ := parse_resolve hp (fun _ _ => true) (by rw [← htext]; decide +kernel)
  rw [← htext] at hq
  exact ⟨p, q, hp, hq, hsame, hwords.symm, (hsymbols _).trans hoff.symm⟩

end
end Asm16.Assembly
