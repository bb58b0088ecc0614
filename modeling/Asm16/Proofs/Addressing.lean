import Asm16.Proofs.SecondPass
import Asm16.Proofs.Sequence

/-! The words of a program by address. A word can be looked up in the entry that holds it, read off
the words of all entries in a row, or taken from a sequence that counts them off with a 16-bit address.
The entries lie end to end and fit the memory, so the three agree: no address belongs to two entries, and
the count wraps at most after the last word. -/

namespace Asm16

namespace Program.Entry

theorem covers_iff {e : Entry} {a : UInt16} :
    e.covers a = true ↔ e.address ≤ a.toNat ∧ a.toNat < e.address + e.words.length := by
  simp [covers]

end Program.Entry

namespace Assembly.Emitted

variable {symbols : Symbols} {address : Nat} {ss : List Statement} {entries : List Program.Entry}

theorem bounds (h : Emitted symbols address ss entries) {e : Program.Entry} (he : e ∈ entries) :
    address ≤ e.address ∧
      e.address + e.words.length ≤ address + (entries.flatMap Program.Entry.words).length := by
  induction h with
  | nil => contradiction
  | cons _ _ ih =>
    simp only [List.flatMap_cons, List.length_append]
    rcases List.mem_cons.1 he with rfl | he
    · dsimp only
      omega
    · have := ih he
      omega

/-- Each address that the entries reach belongs to one of them only, which holds the word that stands
there when all words are put in a row. -/
theorem exists_covers (h : Emitted symbols address ss entries) {a : UInt16} (hlow : address ≤ a.toNat)
    (hhigh : a.toNat < address + (entries.flatMap Program.Entry.words).length) :
    ∃ (i : Nat) (e : Program.Entry) (k : Nat), entries[i]? = some e ∧ e.address + k = a.toNat ∧
      e.words[k]? = (entries.flatMap Program.Entry.words)[a.toNat - address]? ∧
      ∀ (j : Nat) (other : Program.Entry), entries[j]? = some other → (other.covers a = true ↔ j = i) := by
  induction h with
  | nil =>
    rw [List.flatMap_nil, List.length_nil] at hhigh
    omega
  | cons hwords hrest ih =>
    rename_i address s words rest entries
    simp only [List.flatMap_cons, List.length_append] at hhigh ⊢
    by_cases hhere : a.toNat < address + words.length
    · refine ⟨0, _, a.toNat - address, rfl, by dsimp only; omega, ?_, ?_⟩
      · rw [List.getElem?_append_left (by omega)]
      · intro j other hother
        cases j with
        | zero =>
          obtain rfl := Option.some.inj hother
          rw [Program.Entry.covers_iff]
          dsimp only
          omega
        | succ j =>
          -- The entries after this one start where it ends.
          have hafter := (hrest.bounds (List.mem_of_getElem? hother)).1
          rw [Program.Entry.covers_iff]
          omega
    · obtain ⟨i, e, k, he, hk, hword, hunique⟩ := ih (by omega) (by omega)
      refine ⟨i + 1, e, k, he, hk, ?_, ?_⟩
      · rw [List.getElem?_append_right (by omega), hword]
        congr 1
        omega
      · intro j other hother
        cases j with
        | zero =>
          obtain rfl := Option.some.inj hother
          rw [Program.Entry.covers_iff]
          dsimp only
          omega
        | succ j =>
          rw [hunique j other hother]
          omega

end Assembly.Emitted

namespace Assembly

theorem find?_of_unique {entries : List Program.Entry} {a : UInt16} {i : Nat} {e : Program.Entry}
    (he : entries[i]? = some e) (hunique : ∀ (j : Nat) (other : Program.Entry),
      entries[j]? = some other → (other.covers a = true ↔ j = i)) :
    entries.find? (·.covers a) = some e := by
  have hcovers := (hunique i e he).2 rfl
  have hsome : (entries.find? (·.covers a)).isSome :=
    List.find?_isSome.2 ⟨e, List.mem_of_getElem? he, hcovers⟩
  obtain ⟨found, hfound⟩ := Option.isSome_iff_exists.1 hsome
  obtain ⟨j, hj⟩ := List.mem_iff_getElem?.1 (List.mem_of_find?_eq_some hfound)
  have hhit := List.find?_some hfound
  obtain rfl := (hunique j found hj).1 hhit
  rw [hfound, ← hj, he]

/-- Three views of the words of a program agree. The entry found for an address is the only one that
reaches it, and holds the word of that address; past the last word none is found. The sequence of codes gives
every consumer what it gives to one that keeps all items: the words at the addresses from zero on, none of
these twice, even if they fill the memory. -/
theorem find?_codeSequence_of_parse {evaluate : Evaluator} {source : Source} {p : Program}
    (h : parse evaluate source = .ok p) :
    (∀ a : UInt16, a.toNat < p.words.length →
      ∃ (i : Nat) (e : Program.Entry) (k : Nat), p.entries[i]? = some e ∧
        (∀ (j : Nat) (other : Program.Entry), p.entries[j]? = some other →
          (other.address ≤ a.toNat ∧ a.toNat < other.address + other.words.length ↔ j = i)) ∧
        p.find? a = some (e, (k : Int)) ∧ (k : Int) = a.toNat - e.address ∧
        e.words[k]? = p.words[a.toNat]?) ∧
      (∀ a : UInt16, p.words.length ≤ a.toNat → p.find? a = none) ∧
      p.codeSequence.Delivers (p.codeSequence.collect none) ∧
      (p.codeSequence.collect none).map (fun c => (c.1.toNat, c.2)) = (List.range p.words.length).zip p.words ∧
      ((p.codeSequence.collect none).map Prod.fst).Nodup := by
  obtain ⟨layout, -, hemitted, -⟩ := exists_layout_of_parse h
  have hcount : (0 : UInt16).toNat + p.words.length ≤ 65536 := by
    rw [UInt16.toNat_zero, Nat.zero_add]
    exact length_words_le_of_parse h
  have hcodes : p.codeSequence.collect none = numbered 0 p.words := p.delivers_codeSequence.collect_eq none
  rw [hcodes]
  refine ⟨?_, ?_, p.delivers_codeSequence, ?_, nodup_numbered hcount⟩
  · intro a ha
    obtain ⟨i, e, k, he, hk, hword, hunique⟩ :=
      hemitted.exists_covers (Nat.zero_le a.toNat) ((Nat.zero_add _).symm ▸ ha)
    have hindex : (a.toNat : Int) - e.address = k := by omega
    refine ⟨i, e, k, he, ?_, ?_, hindex.symm, hword⟩
    · intro j other hother
      rw [← Program.Entry.covers_iff]
      exact hunique j other hother
    · rw [Program.find?, find?_of_unique he hunique, Option.map_some, hindex]
  · intro a ha
    rw [Program.find?, Option.map_eq_none_iff, List.find?_eq_none]
    intro e he hcovers
    have hend := (hemitted.bounds he).2
    have hreach := Program.Entry.covers_iff.1 hcovers
    rw [Program.words] at ha
    omega
  · rw [map_numbered hcount, UInt16.toNat_zero, List.range_eq_range']

theorem find?_codeSequence_of_parse_loopSource :
    ∃ p, parse Constant.closed loopSource = .ok p ∧ p.words = [0x7c01, 6, 1, 6, 0x8111, 2, 0x99c1] ∧
      (∃ (e : Program.Entry) (k : Nat), p.find? 5 = some (e, (k : Int)) ∧ (k : Int) = 5 - e.address ∧
        e.words[k]? = some 2) ∧
      p.find? 7 = none ∧ (p.codeSequence.collect none).map (fun c => (c.1.toNat, c.2)) =
        [(0, 0x7c01), (1, 6), (2, 1), (3, 6), (4, 0x8111), (5, 2), (6, 0x99c1)] := by
  obtain ⟨p, hp, hentries⟩ := map_eq_ok_iff.1 map_words_loopSource
  have hwords : p.words = [0x7c01, 6, 1, 6, 0x8111, 2, 0x99c1] := by
    rw [Program.words, List.flatMap_def, ← hentries]
    rfl
  obtain ⟨hinside, houtside, -, hcodes, -⟩ := find?_codeSequence_of_parse hp
  rw [hwords] at hinside houtside hcodes
  obtain ⟨-, e, k, -, -, hfind, hk, hword⟩ := hinside 5 (by decide)
  exact ⟨p, hp, hwords, ⟨e, k, hfind, hk, hword⟩, houtside 7 (by decide), hcodes⟩

end Assembly
end Asm16
