/-! Sequences that are handed over to a consumer one item at a time. The consumer says after each item whether it wants
more, and a sequence that is put together from others has to pass that on to all of them. -/

namespace Asm16

def limited {α : Type} (limit : Option Nat) (items : List α) : List α :=
  match limit with
  | some n => items.take n
  | none => items

/-- Takes an item in some state: the state after it, and whether more is wanted. -/
abbrev Consumer (σ α : Type) := σ → α → σ × Bool

namespace Consumer

variable {σ α : Type}

def feed (consumer : Consumer σ α) (s : σ) : List α → σ
  | [] => s
  | item :: rest =>
    match consumer s item with
    | (s, true) => feed consumer s rest
    | (s, false) => s

/-- A consumer that also remembers whether it wanted more. -/
def watched (consumer : Consumer σ α) : Consumer (σ × Bool) α :=
  fun s item =>
    match consumer s.1 item with
    | (next, more) => ((next, more), more)

def counting (consumer : Consumer σ (UInt16 × α)) : Consumer (UInt16 × σ) α :=
  fun s item =>
    match consumer s.2 (s.1, item) with
    | (next, more) => ((s.1 + 1, next), more)

def keep : Consumer (List α) α := fun items item => (item :: items, true)

def keepWithin : Consumer (List α × Nat) α := fun s item => ((item :: s.1, s.2 - 1), 1 < s.2)

end Consumer

/-- Hands its items over to a consumer in a state until no more is wanted, and gives the state it is then in. -/
structure Sequence (α : Type) where
  run : {σ : Type} → Consumer σ α → σ → σ

namespace Sequence

variable {σ α : Type}

def ofList (items : List α) : Sequence α where
  run consumer s := consumer.feed s items

/-- Runs sequences one after the other. When one of them was stopped, those behind it are not started. -/
def runAll (consumer : Consumer σ α) (s : σ) : List (Sequence α) → σ
  | [] => s
  | sequence :: rest =>
    match sequence.run consumer.watched (s, true) with
    | (s, true) => runAll consumer s rest
    | (s, false) => s

def concat (sequences : List (Sequence α)) : Sequence α where
  run consumer s := runAll consumer s sequences

def count (base : UInt16) (sequence : Sequence α) : Sequence (UInt16 × α) where
  run consumer s := (sequence.run consumer.counting (base, s)).2

def collect (limit : Option Nat) (sequence : Sequence α) : List α :=
  match limit with
  | none => (sequence.run Consumer.keep []).reverse
  | some 0 => []
  | some (room + 1) => (sequence.run Consumer.keepWithin ([], room + 1)).1.reverse

end Sequence
end Asm16
