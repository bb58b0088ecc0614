import Asm16.Program
import Mathlib.Data.List.Forall2
import Mathlib.Data.List.Nodup

/-! What sequences hand over. A sequence that is put together from lists cannot be told apart from the one list that
they make up: whatever a consumer does with the items and whenever it stops, it ends in the same state. So it gets
every item up to the one at which it stops, and none after that. -/

namespace Asm16

/-- Pairs each element with an index that counts up from `base` and wraps at 65536. -/
def numbered {α : Type} (base : UInt16) (items : List α) : List (UInt16 × α) :=
  items.zipIdx.map fun (item, n) => (base + UInt16.ofNat n, item)

theorem numbered_cons {α : Type} (base : UInt16) (item : α) (items : List α) :
    numbered base (item :: items) = (base, item) :: numbered (base + 1) items := by
  have hstep : ∀ n : Nat, base + UInt16.ofNat (n + 1) = base + 1 + UInt16.ofNat n := by
    intro n
    rw [Nat.add_comm, UInt16.ofNat_add, UInt16.add_assoc]
    rfl
  unfold numbered
  rw [List.zipIdx_cons', List.map_cons, List.map_map]
  congr 1
  · simp
  · congr 1
    funext c
    exact congrArg (·, c.1) (hstep c.2)

theorem map_numbered {α : Type} {base : UInt16} {items : List α}
    (h : base.toNat + items.length ≤ 65536) :
    (numbered base items).map (fun c => (c.1.toNat, c.2)) =
      (List.range' base.toNat items.length).zip items := by
  induction items generalizing base with
  | nil => rfl
  | cons item rest ih =>
    rw [numbered_cons, List.map_cons, List.length_cons, List.range'_succ, List.zip_cons_cons]
    congr 1
    cases rest with
    | nil => rfl
    | cons next more =>
      simp only [List.length_cons] at h ih ⊢
      -- Another item follows, so the index of this one is not the last of all.
      have hnext : (base + 1).toNat = base.toNat + 1 := by
        rw [UInt16.toNat_add]
        exact Nat.mod_eq_of_lt (show base.toNat + 1 < 65536 by omega)
      rw [← hnext]
      apply ih
      omega

theorem nodup_numbered {α : Type} {base : UInt16} {items : List α}
    (h : base.toNat + items.length ≤ 65536) : ((numbered base items).map Prod.fst).Nodup := by
  have hfst := congrArg (List.map Prod.fst) (map_numbered h)
  rw [List.map_map, List.map_fst_zip (Nat.le_of_eq List.length_range')] at hfst
  have hnodup : (((numbered base items).map Prod.fst).map UInt16.toNat).Nodup := by
    rw [List.map_map]
    exact hfst ▸ List.nodup_range'
  exact List.Nodup.of_map UInt16.toNat hnodup

theorem length_numbered {α : Type} (base : UInt16) (items : List α) :
    (numbered base items).length = items.length := by
  rw [numbered, List.length_map, List.length_zipIdx]

theorem getElem?_numbered {α : Type} (base : UInt16) {items : List α} {j : Nat} {item : α}
    (h : items[j]? = some item) :
    ∃ index : UInt16, index.toNat = (base.toNat + j) % 65536 ∧ (numbered base items)[j]? = some (index, item) := by
  refine ⟨base + UInt16.ofNat j, ?_, ?_⟩
  · rw [UInt16.toNat_add, UInt16.toNat_ofNat', Nat.add_mod_mod]
  · simp [numbered, h]

namespace Consumer

variable {σ α : Type}

def after (consumer : Consumer σ α) (s : σ) (items : List α) : σ :=
  items.foldl (fun s item => (consumer s item).1) s

def wantsAll (consumer : Consumer σ α) (s : σ) : List α → Bool
  | [] => true
  | item :: rest => (consumer s item).2 && wantsAll consumer (consumer s item).1 rest

theorem feed_cons (consumer : Consumer σ α) (s : σ) (item : α) (rest : List α) :
    consumer.feed s (item :: rest) =
      if (consumer s item).2 then consumer.feed (consumer s item).1 rest else (consumer s item).1 := by
  rw [feed]
  rcases consumer s item with ⟨next, _ | _⟩ <;> rfl

theorem feed_of_wantsAll {consumer : Consumer σ α} {s : σ} {items : List α} (h : consumer.wantsAll s items = true) :
    consumer.feed s items = consumer.after s items := by
  induction items generalizing s with
  | nil => rfl
  | cons item rest ih =>
    obtain ⟨hitem, hrest⟩ := Bool.and_eq_true_iff.1 h
    rw [feed_cons, if_pos hitem]
    exact ih hrest

/-- What comes behind some items is reached only if more was wanted after each of them. -/
theorem feed_append (consumer : Consumer σ α) (s : σ) (items more : List α) :
    consumer.feed s (items ++ more) =
      if consumer.wantsAll s items then consumer.feed (consumer.feed s items) more else consumer.feed s items := by
  induction items generalizing s with
  | nil => rfl
  | cons item rest ih =>
    rw [List.cons_append, feed_cons, feed_cons, wantsAll]
    cases (consumer s item).2 with
    | false => rfl
    | true => exact ih (consumer s item).1

theorem feed_of_stop {consumer : Consumer σ α} {s : σ} {items : List α} {k : Nat}
    (hbefore : consumer.wantsAll s (items.take k) = true) (hstop : consumer.wantsAll s (items.take (k + 1)) = false) :
    consumer.feed s items = consumer.after s (items.take (k + 1)) := by
  induction items generalizing s k with
  | nil => contradiction
  | cons item rest ih =>
    rw [List.take_succ_cons, wantsAll] at hstop
    rw [feed_cons, List.take_succ_cons]
    cases k with
    | zero =>
      have hlast : (consumer s item).2 = false := by simpa [wantsAll] using hstop
      rw [hlast]
      rfl
    | succ k =>
      obtain ⟨hitem, hrest⟩ := Bool.and_eq_true_iff.1 hbefore
      rw [hitem, Bool.true_and] at hstop
      rw [if_pos hitem, ih hrest hstop]
      rfl

theorem feed_watched (consumer : Consumer σ α) (s : σ) (items : List α) :
    consumer.watched.feed (s, true) items = (consumer.feed s items, consumer.wantsAll s items) := by
  induction items generalizing s with
  | nil => rfl
  | cons item rest ih =>
    have hwatched : consumer.watched (s, true) item = (consumer s item, (consumer s item).2) := rfl
    rw [feed_cons, feed_cons, hwatched, wantsAll]
    cases hitem : consumer s item with
    | mk next more =>
      cases more with
      | false => rfl
      | true => exact ih next

theorem feed_counting (consumer : Consumer σ (UInt16 × α)) (base : UInt16) (s : σ) (items : List α) :
    (consumer.counting.feed (base, s) items).2 = consumer.feed s (numbered base items) := by
  induction items generalizing base s with
  | nil => rfl
  | cons item rest ih =>
    have hcounting : consumer.counting (base, s) item =
        ((base + 1, (consumer s (base, item)).1), (consumer s (base, item)).2) := rfl
    rw [numbered_cons, feed_cons, feed_cons, hcounting]
    cases (consumer s (base, item)).2 with
    | false => rfl
    | true => exact ih (base + 1) _

theorem feed_keep (kept items : List α) : feed keep kept items = items.reverse ++ kept := by
  induction items generalizing kept with
  | nil => rfl
  | cons item rest ih =>
    rw [feed_cons, List.reverse_cons, List.append_assoc]
    exact ih (item :: kept)

theorem fst_feed_keepWithin (kept items : List α) (room : Nat) :
    (feed keepWithin (kept, room + 1) items).1 = (items.take (room + 1)).reverse ++ kept := by
  induction items generalizing kept room with
  | nil => rfl
  | cons item rest ih =>
    rw [feed_cons, List.take_succ_cons, List.reverse_cons, List.append_assoc]
    cases room with
    | zero => rfl
    | succ room =>
      have hmore : (keepWithin (kept, room + 2) item).2 = true := by simp [keepWithin]
      rw [if_pos hmore]
      exact ih (item :: kept) room

end Consumer

namespace Sequence

variable {σ α : Type}

/-- Whether no consumer can tell a sequence from a list. -/
def Delivers (sequence : Sequence α) (items : List α) : Prop :=
  ∀ (σ : Type) (consumer : Consumer σ α) (s : σ), sequence.run consumer s = consumer.feed s items

theorem delivers_ofList (items : List α) : (ofList items).Delivers items := fun _ _ _ => rfl

/-- Sequences one after the other deliver what their items make up together, also if some of them are empty. -/
theorem delivers_concat {sequences : List (Sequence α)} {lists : List (List α)}
    (h : List.Forall₂ Delivers sequences lists) : (concat sequences).Delivers lists.flatten := by
  intro σ consumer s
  change runAll consumer s sequences = _
  induction h generalizing s with
  | nil => rfl
  | @cons sequence items _ lists hfirst _ ih =>
    rw [runAll, hfirst, Consumer.feed_watched, List.flatten_cons, Consumer.feed_append]
    -- The flag of the watched consumer is what decides whether the next sequence is started.
    cases consumer.wantsAll s items with
    | false => rfl
    | true => exact ih (consumer.feed s items)

theorem delivers_count {sequence : Sequence α} {items : List α} (h : sequence.Delivers items) (base : UInt16) :
    (count base sequence).Delivers (numbered base items) := by
  intro σ consumer s
  change (sequence.run consumer.counting (base, s)).2 = _
  rw [h, Consumer.feed_counting]

theorem Delivers.collect_eq {sequence : Sequence α} {items : List α} (h : sequence.Delivers items)
    (limit : Option Nat) : sequence.collect limit = limited limit items := by
  match limit with
  | none =>
    change (sequence.run Consumer.keep []).reverse = items
    rw [h, Consumer.feed_keep, List.append_nil, List.reverse_reverse]
  | some 0 => rfl
  | some (room + 1) =>
    change (sequence.run Consumer.keepWithin ([], room + 1)).1.reverse = items.take (room + 1)
    rw [h, Consumer.fst_feed_keepWithin, List.append_nil, List.reverse_reverse]

theorem delivers_concat_ofList (lists : List (List α)) : (concat (lists.map ofList)).Delivers lists.flatten := by
  apply delivers_concat
  rw [List.forall₂_map_left_iff, List.forall₂_same]
  exact fun list _ => delivers_ofList list

end Sequence

theorem Program.delivers_codeSequence (p : Program) : p.codeSequence.Delivers (numbered 0 p.words) := by
  have hlists := Sequence.delivers_concat_ofList (p.entries.map Program.Entry.words)
  rw [List.map_map] at hlists
  exact Sequence.delivers_count hlists 0

namespace Sequence

/-- Lists one after the other, with a running index. The index of an item is its position in all of them, counted on
from the base and taken modulo 65536. A consumer that always wants more gets all items; one that stops after `k + 1` of
them gets these and no other, wherever that is in the lists; and one that takes up to a limit gets the first items. -/
theorem run_count_concat {α : Type} (base : UInt16) (lists : List (List α)) :
    ((numbered base lists.flatten).length = lists.flatten.length ∧
      ∀ j item, lists.flatten[j]? = some item → ∃ index : UInt16, index.toNat = (base.toNat + j) % 65536 ∧
        (numbered base lists.flatten)[j]? = some (index, item)) ∧
    (∀ (σ : Type) (consumer : Consumer σ (UInt16 × α)) (s : σ),
      (consumer.wantsAll s (numbered base lists.flatten) = true →
        (count base (concat (lists.map ofList))).run consumer s = consumer.after s (numbered base lists.flatten)) ∧
      ∀ k, consumer.wantsAll s ((numbered base lists.flatten).take k) = true →
        consumer.wantsAll s ((numbered base lists.flatten).take (k + 1)) = false →
          (count base (concat (lists.map ofList))).run consumer s =
            consumer.after s ((numbered base lists.flatten).take (k + 1))) ∧
    ∀ limit, (count base (concat (lists.map ofList))).collect limit =
      limited limit (numbered base lists.flatten) := by
  have hdelivers := delivers_count (delivers_concat_ofList lists) base
  refine ⟨⟨length_numbered base _, fun j item => getElem?_numbered base⟩, ?_, hdelivers.collect_eq⟩
  intro σ consumer s
  rw [hdelivers]
  exact ⟨Consumer.feed_of_wantsAll, fun k => Consumer.feed_of_stop⟩

def addUpToTen : Consumer Nat (UInt16 × Nat) := fun sum item => (sum + item.2, sum + item.2 ≤ 10)

/-- It stops at the end of a list, and is not given the item that follows behind an empty one. -/
theorem run_count_concat_addUpToTen :
    addUpToTen.wantsAll 0 ((numbered 0xffff [[3, 4], [], [5], [], [6]].flatten).take 2) = true ∧
    addUpToTen.wantsAll 0 ((numbered 0xffff [[3, 4], [], [5], [], [6]].flatten).take 3) = false ∧
    (count 0xffff (concat ([[3, 4], [], [5], [], [6]].map ofList))).run addUpToTen 0 = 12 ∧
    (count 0xffff (concat ([[3, 4], [], [5], [], [6]].map ofList))).collect (some 3) =
      [(0xffff, 3), (0, 4), (1, 5)] := by
  obtain ⟨-, hrun, hcollect⟩ := run_count_concat 0xffff [[3, 4], [], [5], [], [6]]
  have hbefore : addUpToTen.wantsAll 0 ((numbered 0xffff [[3, 4], [], [5], [], [6]].flatten).take 2) = true := by decide
  have hstop : addUpToTen.wantsAll 0 ((numbered 0xffff [[3, 4], [], [5], [], [6]].flatten).take 3) = false := by decide
  exact ⟨hbefore, hstop, (hrun Nat addUpToTen 0).2 2 hbefore hstop, hcollect (some 3)⟩

end Sequence
end Asm16
