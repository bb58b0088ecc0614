import Asm16.Proofs.OnePass
import Asm16.Proofs.PureCode

/-! Other tokens for labels. Operands are restated by putting other tokens in the place of the labels that
they refer to. A value inside brackets or in a data statement always takes a word of its own, and there
every token with the value of the label will do. Anywhere else the token has to be as short as the label. -/

namespace Asm16.Grammar

open Assembly

/-- Whether values take a word of their own after a token, given whether they did before it. -/
def ownWord (own : Bool) (token : Text) : Bool :=
  if token = openToken then true else if token = closeToken then false else own

/-- Operands with other tokens in the place of the labels. -/
inductive Restated (Stands : Bool → Text → Text → Prop) : Bool → List Text → List Text → Prop
  | nil (own : Bool) : Restated Stands own [] []
  | other {own : Bool} {token : Text} {rest rest' : List Text} (hother : isReference token = false)
    (hrest : Restated Stands (ownWord own token) rest rest') :
    Restated Stands own (token :: rest) (token :: rest')
  | label {own : Bool} {label token : Text} {rest rest' : List Text} (hlabel : isReference label = true)
    (hstands : Stands own label token) (hrest : Restated Stands own rest rest') :
    Restated Stands own (label :: rest) (token :: rest')

/-- A token that can stand for a label: it has the same value, and where a small value is put into the
operand field, it is put there just if the label was. -/
def Agrees (evaluate : Evaluator) (final final' : Symbols) (early early' : Text → Bool)
    (own : Bool) (label token : Text) : Prop :=
  ∀ address, final[label]? = some address →
    ∃ a : Atom, a.Spelt evaluate token ∧ a.word? final' = some address ∧
      (own = false → (a.isCompact early' = true ∧ address ≤ 0x1f ↔ early label = true ∧ address ≤ 0x1f))

theorem isReference_iff {token : Text} :
    isReference token = true ↔ isLabel token = true ∧ isReserved token = false := by
  rw [isReference, Bool.and_eq_true, Bool.not_eq_true']

theorem agrees_label {evaluate : Evaluator} {final final' : Symbols} {early early' : Text → Bool}
    {label name : Text} (hvalid : label ∈ final → isLabel name = true ∧ isReserved name = false)
    (hlookup : ∀ address, final[label]? = some address → final'[name]? = some address)
    (hearly : label ∈ final → early' name = early label) (own : Bool) :
    Agrees evaluate final final' early early' own label name := by
  intro address haddress
  have hmem : label ∈ final := mem_symbols_iff.2 ⟨address, haddress⟩
  obtain ⟨hlabel, hfree⟩ := hvalid hmem
  refine ⟨.label name, .label hlabel hfree, hlookup address haddress, fun _ => ?_⟩
  rw [Atom.isCompact, hearly hmem]

theorem forall_mem_intercalate {evaluate : Evaluator} {P : Text → Prop} {arguments : List (List Text)}
    {values : List Atom} (h : List.Forall₂ (Atom.SpeltFreely evaluate) arguments values) (hcomma : P commaToken)
    (hvalue : ∀ {tokens : List Text} {a : Atom}, a.SpeltFreely evaluate tokens → ∀ token ∈ tokens, P token) :
    ∀ token ∈ [commaToken].intercalate arguments, P token := by
  induction h with
  | nil => simp
  | @cons argument _ rest _ ha _ ih =>
    cases rest with
    | nil =>
      rw [List.intercalate_singleton]
      exact hvalue ha
    | cons next more =>
      rw [List.intercalate_cons_cons, List.append_assoc]
      exact List.forall_mem_append.2 ⟨hvalue ha, List.forall_mem_cons.2 ⟨hcomma, ih⟩⟩

theorem ownWord_of_ne {token : Text} (hopen : token ≠ openToken) (hclose : token ≠ closeToken) (own : Bool) :
    ownWord own token = own := by
  rw [ownWord, if_neg hopen, if_neg hclose]

theorem ownWord_of_isReference {token : Text} (h : isReference token = true) (own : Bool) :
    ownWord own token = own := by
  apply ownWord_of_ne
  · rintro rfl
    exact absurd h (by decide)
  · rintro rfl
    exact absurd h (by decide)

namespace Restated

theorem mono {S T : Bool → Text → Text → Prop}
    (himp : ∀ own label token, isReference label = true → S own label token → T own label token)
    {own : Bool} {tokens tokens' : List Text} (h : Restated S own tokens tokens') :
    Restated T own tokens tokens' := by
  induction h with
  | nil own => exact .nil own
  | other hother _ ih => exact .other hother ih
  | label hlabel hstands _ ih => exact .label hlabel (himp _ _ _ hlabel hstands) ih

theorem self {S : Bool → Text → Text → Prop}
    (hself : ∀ own label, isReference label = true → S own label label) (own : Bool) (tokens : List Text) :
    Restated S own tokens tokens := by
  induction tokens generalizing own with
  | nil => exact .nil own
  | cons token rest ih =>
    by_cases hreference : isReference token = true
    · exact .label hreference (hself own token hreference) (ih own)
    · exact .other (Bool.eq_false_iff.2 hreference) (ih _)

theorem of_other {S : Bool → Text → Text → Prop} {own : Bool} {token : Text} {rest out : List Text}
    (hother : isReference token = false) (h : Restated S own (token :: rest) out) :
    ∃ rest', out = token :: rest' ∧ Restated S (ownWord own token) rest rest' := by
  cases h with
  | other _ hrest => exact ⟨_, rfl, hrest⟩
  | label hlabel _ _ =>
    rw [hother] at hlabel
    contradiction

section
variable {evaluate : Evaluator} {final final' : Symbols} {early early' : Text → Bool}

theorem ownWord_of_spelt {token : Text} {a : Atom} (h : a.Spelt evaluate token) (own : Bool) :
    ownWord own token = own := by
  apply ownWord_of_ne
  · rintro rfl
    exact Bool.false_ne_true (h.isSeparator.symm.trans (by decide))
  · rintro rfl
    exact Bool.false_ne_true (h.isSeparator.symm.trans (by decide))

theorem of_reserved {S : Bool → Text → Text → Prop} {own : Bool} {token : Text} {rest out : List Text}
    (hreserved : isReserved token = true) (h : Restated S own (token :: rest) out) :
    ∃ rest', out = token :: rest' ∧ Restated S own rest rest' := by
  obtain ⟨rest', rfl, hrest⟩ := of_other (isReference_of_isReserved hreserved) h
  refine ⟨rest', rfl, ?_⟩
  rwa [ownWord_of_ne] at hrest
  · rintro rfl
    exact absurd hreserved (by decide)
  · rintro rfl
    exact absurd hreserved (by decide)

theorem atom {token : Text} {a : Atom} (ha : a.Spelt evaluate token) {word : UInt16}
    (hword : a.word? final = some word) {own : Bool} {rest out : List Text}
    (h : Restated (Agrees evaluate final final' early early') own (token :: rest) out) :
    ∃ token' rest', ∃ a' : Atom, out = token' :: rest' ∧ a'.Spelt evaluate token' ∧
      a'.word? final' = some word ∧
      (own = false →
        (a'.isCompact early' = true ∧ word ≤ 0x1f ↔ a.isCompact early = true ∧ word ≤ 0x1f)) ∧
      Restated (Agrees evaluate final final' early early') own rest rest' := by
  cases ha with
  | number hnumber =>
    obtain ⟨rest', rfl, hrest⟩ := of_other (isReference_of_numberWord hnumber) h
    rw [ownWord_of_spelt (.number hnumber)] at hrest
    exact ⟨token, rest', .number _, rfl, .number hnumber, hword, fun _ => Iff.rfl, hrest⟩
  | label hlabel hfree =>
    have hreference := isReference_iff.2 ⟨hlabel, hfree⟩
    cases h with
    | other hother _ =>
      rw [hreference] at hother
      contradiction
    | label _ hstands hrest =>
      obtain ⟨a', hspelt, hword', hcompact⟩ := hstands word hword
      exact ⟨_, _, a', rfl, hspelt, hword', hcompact, hrest⟩

theorem value {tokens : List Text} {a : Atom} (ha : a.SpeltFreely evaluate tokens) {word : UInt16}
    (hword : a.word? final = some word) {own : Bool} {rest out : List Text}
    (h : Restated (Agrees evaluate final final' early early') own (tokens ++ rest) out) :
    ∃ tokens' rest', ∃ a' : Atom, out = tokens' ++ rest' ∧ a'.SpeltFreely evaluate tokens' ∧
      a'.word? final' = some word ∧
      (own = false →
        (a'.isCompact early' = true ∧ word ≤ 0x1f ↔ a.isCompact early = true ∧ word ≤ 0x1f)) ∧
      Restated (Agrees evaluate final final' early early') own rest rest' := by
  cases ha with
  | @atom token a ha =>
    obtain ⟨token', rest', a', rfl, hspelt, hword', hcompact, hrest⟩ := atom ha hword h
    exact ⟨[token'], rest', a', rfl, .atom hspelt, hword', hcompact, hrest⟩
  | @negative token word' hnumber =>
    obtain ⟨rest', rfl, hminus⟩ := of_other (show isReference minusToken = false by decide) h
    obtain ⟨rest', rfl, hrest⟩ := of_other (isReference_of_numberWord hnumber) hminus
    rw [ownWord_of_spelt (.number hnumber), ownWord_of_ne (by decide) (by decide)] at hrest
    exact ⟨[minusToken, token], rest', _, rfl, .negative hnumber, hword, fun _ => Iff.rfl, hrest⟩

theorem term {tokens : List Text} {t : Term} (ht : t.Spelt evaluate tokens) {code : Nat × List UInt16}
    (hcode : t.code? final early = some code) {rest out : List Text}
    (h : Restated (Agrees evaluate final final' early early') false (tokens ++ rest) out) :
    ∃ tokens' rest', ∃ t' : Term, out = tokens' ++ rest' ∧ t'.Spelt evaluate tokens' ∧
      t'.code? final' early' = some code ∧
      Restated (Agrees evaluate final final' early early') false rest rest' := by
  have hopen : isReference openToken = false := by decide
  have hclose : isReference closeToken = false := by decide
  have hplus : isReference plusToken = false := by decide
  -- Every bracket and every register keeps its place; only the one value of an operand may change.
  cases ht with
  | register hreg =>
    obtain ⟨rest', rfl, hrest⟩ := of_reserved (isReserved_of_register hreg) h
    exact ⟨[_], rest', _, rfl, .register hreg, hcode, hrest⟩
  | special hsp =>
    obtain ⟨rest', rfl, hrest⟩ := of_reserved (isReserved_of_special hsp) h
    exact ⟨[_], rest', _, rfl, .special hsp, hcode, hrest⟩
  | bare ha =>
    obtain ⟨word, hword, rfl⟩ := Option.map_eq_some_iff.1 hcode
    obtain ⟨tokens', rest', a', rfl, hspelt, hword', hcompact, hrest⟩ := value ha hword h
    refine ⟨tokens', rest', _, rfl, .bare hspelt, ?_, hrest⟩
    rw [Term.code?, hword', Option.map_some]
    simp only [hcompact rfl]
  | indirect hreg =>
    obtain ⟨_, rfl, hopened⟩ := of_other hopen h
    obtain ⟨_, rfl, hregister⟩ := of_reserved (isReserved_of_register hreg) hopened
    obtain ⟨rest', rfl, hrest⟩ := of_other hclose hregister
    exact ⟨[_, _, _], rest', _, rfl, .indirect hreg, hcode, hrest⟩
  | memory ha =>
    obtain ⟨word, hword, rfl⟩ := Option.map_eq_some_iff.1 hcode
    obtain ⟨_, rfl, hopened⟩ := of_other hopen h
    obtain ⟨token', _, a', rfl, hspelt, hword', -, hvalue⟩ := atom ha hword hopened
    obtain ⟨rest', rfl, hrest⟩ := of_other hclose hvalue
    refine ⟨[_, _, _], rest', _, rfl, .memory hspelt, ?_, hrest⟩
    rw [Term.code?, hword', Option.map_some]
  | offsetFirst ha hreg =>
    obtain ⟨word, hword, rfl⟩ := Option.map_eq_some_iff.1 hcode
    obtain ⟨_, rfl, hopened⟩ := of_other hopen h
    obtain ⟨token', _, a', rfl, hspelt, hword', -, hvalue⟩ := atom ha hword hopened
    obtain ⟨_, rfl, hsum⟩ := of_other hplus hvalue
    obtain ⟨_, rfl, hregister⟩ := of_reserved (isReserved_of_register hreg) hsum
    obtain ⟨rest', rfl, hrest⟩ := of_other hclose hregister
    refine ⟨[_, _, _, _, _], rest', _, rfl, .offsetFirst hspelt hreg, ?_, hrest⟩
    rw [Term.code?, hword', Option.map_some]
  | registerFirst ha hreg =>
    obtain ⟨word, hword, rfl⟩ := Option.map_eq_some_iff.1 hcode
    obtain ⟨_, rfl, hopened⟩ := of_other hopen h
    obtain ⟨_, rfl, hregister⟩ := of_reserved (isReserved_of_register hreg) hopened
    obtain ⟨_, rfl, hsum⟩ := of_other hplus hregister
    obtain ⟨token', _, a', rfl, hspelt, hword', -, hvalue⟩ := atom ha hword hsum
    obtain ⟨rest', rfl, hrest⟩ := of_other hclose hvalue
    refine ⟨[_, _, _, _, _], rest', _, rfl, .registerFirst hspelt hreg, ?_, hrest⟩
    rw [Term.code?, hword', Option.map_some]

theorem data {arguments : List (List Text)} {values : List Atom}
    (hvalues : List.Forall₂ (Atom.SpeltFreely evaluate) arguments values) {words : List UInt16}
    (hwords : values.mapM (Atom.word? final) = some words) {out : List Text}
    (h : Restated (Agrees evaluate final final' early early') true ([commaToken].intercalate arguments) out) :
    ∃ arguments', ∃ values' : List Atom, out = [commaToken].intercalate arguments' ∧
      arguments'.length = arguments.length ∧ List.Forall₂ (Atom.SpeltFreely evaluate) arguments' values' ∧
      values'.mapM (Atom.word? final') = some words := by
  have hcomma : isReference commaToken = false := by decide
  induction hvalues generalizing words out with
  | nil =>
    cases h
    exact ⟨[], [], rfl, rfl, .nil, hwords⟩
  | @cons argument a rest values ha hrest ih =>
    rw [List.mapM_cons] at hwords
    obtain ⟨word, hword, hmore⟩ := Option.bind_eq_some_iff.1 hwords
    obtain ⟨more, hmore, heq⟩ := Option.bind_eq_some_iff.1 hmore
    cases rest with
    | nil =>
      rw [List.intercalate_singleton, ← List.append_nil argument] at h
      obtain ⟨argument', rest', a', rfl, hspelt, hword', -, hend⟩ := value ha hword h
      cases hrest
      cases hend
      refine ⟨[argument'], [a'], by simp, rfl, .cons hspelt .nil, ?_⟩
      rw [List.mapM_cons, hword', ← heq]
      exact congrArg (fun rest => rest.bind fun tail => some (word :: tail)) hmore
    | cons next others =>
      rw [List.intercalate_cons_cons, List.append_assoc] at h
      obtain ⟨argument', rest', a', rfl, hspelt, hword', -, hafter⟩ := value ha hword h
      obtain ⟨rest', rfl, hothers⟩ := of_other hcomma hafter
      obtain ⟨arguments', values', rfl, hlength, hspelt', hwords'⟩ := ih hmore hothers
      -- As many values as before, so that a comma still stands behind this one.
      obtain ⟨next', others', rfl⟩ := List.exists_cons_of_length_eq_add_one hlength
      refine ⟨argument' :: next' :: others', a' :: values', ?_, congrArg (· + 1) hlength,
        .cons hspelt hspelt', ?_⟩
      · rw [List.intercalate_cons_cons, List.append_assoc]
        rfl
      · rw [List.mapM_cons, hword', hwords', ← heq]
        rfl

theorem phrase {mnemonic : Text} {operands operands' : List Text} {p : Phrase}
    (hp : p.Spelt evaluate (mnemonic :: operands)) {words : List UInt16}
    (hwords : p.words? final early = some words)
    (h : Restated (Agrees evaluate final final' early early') (isData (mnemonic :: operands)) operands operands') :
    ∃ p' : Phrase, p'.Spelt evaluate (mnemonic :: operands') ∧ p'.words? final' early' = some words := by
  cases hp with
  | @data _ arguments values hm hne hvalues =>
    have hdata : isData (mnemonic :: [commaToken].intercalate arguments) = true := by simp [isData, hm]
    rw [hdata] at h
    obtain ⟨arguments', values', rfl, hlength, hspelt, hwords'⟩ := data hvalues hwords h
    have hne' : arguments' ≠ [] := by
      rintro rfl
      exact hne (List.length_eq_zero_iff.1 hlength.symm)
    exact ⟨.data values', .data hm hne' hspelt, hwords'⟩
  | @nonBasic _ _ op a hm ha =>
    have hjsr : ascii "JSR" ≠ ascii "DAT" := by decide
    have hcode : isData (mnemonic :: operands) = false := by
      simp [isData, (NonBasicOp.ofName?_eq_some_iff.1 hm).1, hjsr]
    rw [hcode, ← List.append_nil operands] at h
    obtain ⟨code, hcode, heq⟩ := Option.map_eq_some_iff.1 hwords
    obtain ⟨argument', rest', a', rfl, hspelt, hcode', hend⟩ := term ha hcode h
    cases hend
    refine ⟨.nonBasic op a', .nonBasic hm (by rwa [List.append_nil]), ?_⟩
    rw [Phrase.words?, hcode', ← heq]
    rfl
  | @basic _ left right op a b hm ha hb =>
    have hcode : isData (mnemonic :: (left ++ commaToken :: right)) = false := by
      simp [isData, (BasicOp.upper_ne_of_ofName? hm).1]
    rw [hcode] at h
    obtain ⟨fieldA, literalsA, fieldB, literalsB, hcodeA, hcodeB, rfl⟩ := Phrase.words?_basic_eq_some_iff.1 hwords
    obtain ⟨left', rest', a', rfl, hspeltA, hcodeA', hafter⟩ := term ha hcodeA h
    obtain ⟨right', rfl, hright⟩ := of_other (show isReference commaToken = false by decide) hafter
    rw [← List.append_nil right] at hright
    obtain ⟨right', rest', b', rfl, hspeltB, hcodeB', hend⟩ := term hb hcodeB hright
    cases hend
    refine ⟨.basic op a' b', .basic hm hspeltA (by rwa [List.append_nil]), ?_⟩
    exact Phrase.words?_basic_eq_some_iff.2 ⟨_, _, _, _, hcodeA', hcodeB', rfl⟩

end
end Restated
end Asm16.Grammar
