import Asm16.Proofs.Rewriting
import Mathlib.Data.List.Nodup

/-! Labels under other names. Renaming changes the names in declarations and references and nothing else in
a source. As long as no two labels get the same name, a source keeps its words, its lines and its addresses. -/

namespace Asm16.Assembly

/-- A map that gives the labels of a table names of their own. -/
structure Relabelling (f : Text → Text) (symbols : Symbols) : Prop where
  valid : ∀ label ∈ symbols, isLabel (f label) = true ∧ isReserved (f label) = false
  injective : ∀ a ∈ symbols, ∀ b ∈ symbols, f a = f b → a = b

def relabelOperands (f : Text → Text) (operands : List Text) : List Text :=
  operands.map fun token => if Grammar.isReference token then f token else token

def relabelRow (f : Text → Text) (row : List Text) : List Text := editRow f (fun _ => relabelOperands f) row

/-- A text with its labels renamed wherever they are declared or referred to. -/
def relabel (f : Text → Text) (t : Text) : Text := Token.rewrite (fun _ => relabelRow f) t

def relabelSymbols (f : Text → Text) (symbols : Symbols) : Symbols :=
  Std.TreeMap.ofList (symbols.toList.map fun (label, address) => (f label, address))

section
variable {f : Text → Text} {symbols : Symbols}

theorem mem_of_mem_toList {entry : Text × UInt16} (h : entry ∈ symbols.toList) : entry.1 ∈ symbols :=
  mem_symbols_iff.2 ⟨entry.2, Std.TreeMap.mem_toList_iff_getElem?_eq_some.1 h⟩

theorem mem_relabelSymbols_iff {name : Text} :
    name ∈ relabelSymbols f symbols ↔ ∃ label ∈ symbols, f label = name := by
  rw [relabelSymbols, Std.TreeMap.mem_ofList, List.contains_iff_mem, List.map_map, List.mem_map]
  constructor
  · rintro ⟨entry, hmem, rfl⟩
    exact ⟨entry.1, mem_of_mem_toList hmem, rfl⟩
  · rintro ⟨label, hmem, rfl⟩
    obtain ⟨address, haddress⟩ := mem_symbols_iff.1 hmem
    exact ⟨(label, address), Std.TreeMap.mem_toList_iff_getElem?_eq_some.2 haddress, rfl⟩

theorem Relabelling.getElem?_of_getElem? (h : Relabelling f symbols) {label : Text} {address : UInt16}
    (haddress : symbols[label]? = some address) : (relabelSymbols f symbols)[f label]? = some address := by
  apply Std.TreeMap.getElem?_ofList_of_mem (k := f label) Std.ReflCmp.compare_self
  · rw [List.pairwise_map]
    refine Std.TreeMap.distinct_keys_toList.imp_of_mem ?_
    intro a b ha hb hne heq
    apply hne
    rw [Std.LawfulEqCmp.compare_eq_iff_eq] at heq ⊢
    exact h.injective a.1 (mem_of_mem_toList ha) b.1 (mem_of_mem_toList hb) heq
  · exact List.mem_map.2 ⟨(label, address), Std.TreeMap.mem_toList_iff_getElem?_eq_some.2 haddress, rfl⟩

theorem Relabelling.getElem?_iff (h : Relabelling f symbols) {name : Text} {address : UInt16} :
    (relabelSymbols f symbols)[name]? = some address ↔
      ∃ label, f label = name ∧ symbols[label]? = some address := by
  constructor
  · intro hname
    obtain ⟨label, hlabel, rfl⟩ := mem_relabelSymbols_iff.1 (mem_symbols_iff.2 ⟨address, hname⟩)
    obtain ⟨found, hfound⟩ := mem_symbols_iff.1 hlabel
    have hsame := (h.getElem?_of_getElem? hfound).symm.trans hname
    exact ⟨label, rfl, hfound.trans hsame⟩
  · rintro ⟨label, rfl, haddress⟩
    exact h.getElem?_of_getElem? haddress

theorem restated_relabelOperands (f : Text → Text) (own : Bool) (operands : List Text) :
    Grammar.Restated (fun _ label token => token = f label) own operands (relabelOperands f operands) := by
  induction operands generalizing own with
  | nil => exact .nil own
  | cons token rest ih =>
    rw [relabelOperands, List.map_cons]
    by_cases hreference : Grammar.isReference token = true
    · rw [if_pos hreference]
      exact .label hreference rfl (ih own)
    · rw [if_neg hreference]
      exact .other (Bool.eq_false_iff.2 hreference) (ih _)

variable {evaluate : Evaluator}

theorem Relabelling.mem_map_iff (h : Relabelling f symbols) {labels : List Text}
    (hlabels : ∀ label ∈ labels, label ∈ symbols) {label : Text} (hlabel : label ∈ symbols) :
    f label ∈ labels.map f ↔ label ∈ labels := by
  constructor
  · intro hmem
    obtain ⟨other, hother, heq⟩ := List.mem_map.1 hmem
    exact h.injective other (hlabels other hother) label hlabel heq ▸ hother
  · exact List.mem_map_of_mem

theorem Relabelling.places (h : Relabelling f symbols) {address : Nat} {known labels : List Text}
    (hknown : ∀ label ∈ known, label ∈ symbols) (hplaces : Places symbols address known labels) :
    Places (relabelSymbols f symbols) address (known.map f) (labels.map f) where
  valid := by
    rw [List.forall_mem_map]
    exact fun label hlabel => h.valid label (hplaces.mem hlabel)
  nodup := by
    refine List.Nodup.map_on ?_ hplaces.nodup
    exact fun a ha b hb => h.injective a (hplaces.mem ha) b (hplaces.mem hb)
  fresh := by
    rw [List.forall_mem_map]
    intro label hlabel
    rw [h.mem_map_iff hknown (hplaces.mem hlabel)]
    exact hplaces.fresh label hlabel
  fits := fun hne => hplaces.fits fun hnil => hne (by rw [hnil, List.map_nil])
  address_eq := by
    rw [List.forall_mem_map]
    exact fun label hlabel => h.getElem?_of_getElem? (hplaces.address_eq label hlabel)

theorem Relabelling.mirrors (h : Relabelling f symbols) {known row : List Text}
    (hknown : ∀ label ∈ known, label ∈ symbols) (hrow : ∀ label ∈ lineLabels row, label ∈ symbols) :
    Mirrors evaluate symbols (relabelSymbols f symbols) known (known.map f) row (relabelRow f row) := by
  apply mirrors_editRow (h.places hknown)
  intro mnemonic operands
  refine (restated_relabelOperands f _ operands).mono ?_
  rintro own label _ - rfl
  apply Grammar.agrees_label (h.valid label) fun address => h.getElem?_of_getElem?
  intro hmem
  -- A name is known just where the label was, because no other label has it.
  rw [← List.map_append, decide_eq_decide]
  apply h.mem_map_iff _ hmem
  intro other hother
  exact (List.mem_append.1 hother).elim (hknown other) (hrow other)

theorem Relabelling.keeps (h : Relabelling f symbols) {rows : List (List Text)} {entries : List Program.Entry}
    (hpass : OnePass evaluate symbols 1 0 [] rows entries) {row : List Text} (hrow : row ∈ rows) :
    List.Forall₂ Token.Keeps row (relabelRow f row) := by
  obtain ⟨hlabels, hreferences⟩ := hpass.mem_of_mem hrow
  have hplain : ∀ label ∈ symbols, Token.Plain (f label) := fun label hlabel =>
    plain_of_isLabel (h.valid label hlabel).1
  apply keeps_editRow
  · intro label hlabel
    obtain ⟨hvalid, hmem⟩ := hlabels label hlabel
    exact .inr ⟨plain_of_isLabel hvalid, hplain label hmem⟩
  · intro mnemonic operands hstatement
    rw [hstatement] at hreferences
    refine keeps_of_restated (restated_relabelOperands f false operands) ?_
    rintro own label _ hlabel hreference rfl
    exact hplain label (hreferences label hlabel hreference)

end

/-- Renaming the labels of a source that assembles renames its symbols and changes nothing else. -/
theorem parse_relabel {evaluate : Evaluator} {text : Text} {p : Program} {f : Text → Text}
    (hparse : parse evaluate (Source.ofText text) = .ok p) (hf : Relabelling f p.symbols)
    (hfits : (Text.lines (relabel f text)).overlong = false) :
    ∃ q, parse evaluate (Source.ofText (relabel f text)) = .ok q ∧ q.words = p.words ∧
      (q.entries = p.entries.map fun e => { e with tokens := mapOperands (fun _ => relabelOperands f) e.tokens }) ∧
      ∀ (name : Text) (address : UInt16), q.symbols[name]? = some address ↔
        ∃ label, f label = name ∧ p.symbols[label]? = some address := by
  have hpass := (assembles_of_parse hparse).pass
  obtain ⟨q, hq, hentries, hsymbols⟩ := exists_parse_rewrite (g := f) (r := fun _ _ => relabelOperands f) hparse
    (fun _ known known' _ => known' = known.map f ∧ ∀ label ∈ known, label ∈ p.symbols) ⟨rfl, by simp⟩
    (by
      rintro number known _ row rest ⟨rfl, hknown⟩ hrow
      refine ⟨hf.mirrors hknown hrow, (List.map_append ..).symm, fun label hlabel => ?_⟩
      exact (List.mem_append.1 hlabel).elim (hknown label) (hrow label))
    (fun _ => mem_relabelSymbols_iff) (fun _ row => hf.keeps hpass) hfits
  refine ⟨q, hq, ?_, hentries, fun name address => ?_⟩
  · rw [Program.words, Program.words, hentries, List.flatMap_map]
  · rw [hsymbols]
    exact hf.getElem?_iff

def switchText : Text := ascii ":on SET [off+B], off ; on\n:off DAT on, off"

/-- Gives one label the name of the other one, and that one the name of an instruction. -/
def shuffleNames (label : Text) : Text := if label = ascii "on" then ascii "off" else ascii "SET"

theorem parse_relabel_shuffleNames :
    ∃ p q, parse Constant.closed (Source.ofText switchText) = .ok p ∧ Relabelling shuffleNames p.symbols ∧
      parse Constant.closed (Source.ofText (ascii ":off SET [SET+B], SET ; on\n:SET DAT off, SET")) = .ok q ∧
      q.words = p.words ∧ p.words = [0x7d11, 3, 3, 0, 3] ∧
      q.symbols[ascii "off"]? = some 0 ∧ q.symbols[ascii "SET"]? = some 3 := by
  have htext : relabel shuffleNames switchText = ascii ":off SET [SET+B], SET ; on\n:SET DAT off, SET" := by
    decide +kernel
  have hparse : (parse Constant.closed (Source.ofText switchText)).map (fun p => (p.words, p.symbols.toList)) =
      .ok ([0x7d11, 3, 3, 0, 3], [(ascii "off", 3), (ascii "on", 0)]) := by decide +kernel
  obtain ⟨p, hp, hvalues⟩ := map_eq_ok_iff.1 hparse
  obtain ⟨hwords, hlist⟩ := Prod.mk.inj hvalues
  have hmem : ∀ label ∈ p.symbols, label ∈ [ascii "off", ascii "on"] := by
    intro label hlabel
    have hkey := Std.TreeMap.mem_keys.2 hlabel
    rwa [← Std.TreeMap.map_fst_toList_eq_keys, ← hlist] at hkey
  have hf : Relabelling shuffleNames p.symbols := by
    have hvalid : ∀ label ∈ [ascii "off", ascii "on"],
        isLabel (shuffleNames label) = true ∧ isReserved (shuffleNames label) = false := by decide +kernel
    have hinjective : ∀ a ∈ [ascii "off", ascii "on"], ∀ b ∈ [ascii "off", ascii "on"],
        shuffleNames a = shuffleNames b → a = b := by decide +kernel
    exact ⟨fun label hlabel => hvalid label (hmem label hlabel),
      fun a ha b hb => hinjective a (hmem a ha) b (hmem b hb)⟩
  obtain ⟨q, hq, hsame, -, hsymbols⟩ := parse_relabel hp hf (by rw [htext]; decide +kernel)
  rw [htext] at hq
  have hlookup : ∀ label address, (label, address) ∈ p.symbols.toList →
      q.symbols[shuffleNames label]? = some address := by
    intro label address hlabel
    exact (hsymbols _ _).2 ⟨label, rfl, Std.TreeMap.mem_toList_iff_getElem?_eq_some.1 hlabel⟩
  rw [← hlist] at hlookup
  exact ⟨p, q, hp, hf, hq, hsame, hwords.symm, hlookup (ascii "on") 0 (by simp), hlookup (ascii "off") 3 (by simp)⟩

end Asm16.Assembly
