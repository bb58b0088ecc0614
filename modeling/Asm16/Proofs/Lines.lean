import Asm16.Text.Lines
import Mathlib.Data.List.Basic

/-! Lines of a text. A text is its pieces between newlines, and its lines are these pieces without the carriage return
at their ends, up to the first one that is too long. -/

namespace Asm16.Text

theorem stacked_cons_cons (p q : Text) (more : List Text) :
    stacked (p :: q :: more) = p ++ newline :: stacked (q :: more) := by
  rw [stacked, List.intercalate_cons_cons, List.append_assoc]
  rfl

def pieces (t : Text) : List Text := t.splitOn newline

def chomp (piece : Text) : Text :=
  if piece.getLast? = some carriageReturn then piece.dropLast else piece

/-- The pieces that are lines: nothing after the last newline is none. -/
def delivered : List Text → List Text
  | [] => []
  | [p] => if p = [] then [] else [p]
  | p :: q :: more => p :: delivered (q :: more)

theorem delivered_cons {p : Text} {rest : List Text} (h : rest ≠ []) :
    delivered (p :: rest) = p :: delivered rest := by
  obtain ⟨q, more, rfl⟩ := List.exists_cons_of_ne_nil h
  rfl

theorem delivered_of_ne_nil {ps : List Text} (h : ∀ p ∈ ps, p ≠ []) : delivered ps = ps := by
  fun_induction delivered ps with
  | case1 => rfl
  | case2 => exact absurd rfl (h [] (List.mem_singleton_self []))
  | case3 => rfl
  | case4 p q more ih => rw [ih (List.forall_mem_cons.1 h).2]

theorem chomp_of_notMem {p : Text} (h : carriageReturn ∉ p) : chomp p = p := by
  unfold chomp
  rw [if_neg]
  intro hlast
  exact h (List.mem_of_getLast? hlast)

theorem stacked_pieces (t : Text) : stacked (pieces t) = t := List.intercalate_splitOn newline

theorem pieces_stacked {ps : List Text} (hne : ps ≠ []) (h : ∀ p ∈ ps, newline ∉ p) :
    pieces (stacked ps) = ps := List.splitOn_intercalate newline h hne

theorem pieces_ne_nil (t : Text) : pieces t ≠ [] := List.splitOn_ne_nil newline t

theorem newline_notMem_of_mem_pieces {t p : Text} (hp : p ∈ pieces t) : newline ∉ p := by
  -- A text can be put together from pieces without newlines, and these are the only ones it has.
  have hsome : ∃ ps, ps ≠ [] ∧ (∀ p ∈ ps, newline ∉ p) ∧ stacked ps = t := by
    clear hp
    induction t with
    | nil => exact ⟨[[]], by simp, by simp, rfl⟩
    | cons b t ih =>
      obtain ⟨ps, hne, hps, rfl⟩ := ih
      obtain ⟨q, more, rfl⟩ := List.exists_cons_of_ne_nil hne
      obtain ⟨hq, hmore⟩ := List.forall_mem_cons.1 hps
      by_cases hb : b = newline
      · refine ⟨[] :: q :: more, by simp, List.forall_mem_cons.2 ⟨by simp, hps⟩, ?_⟩
        rw [stacked_cons_cons, hb]
        rfl
      · refine ⟨(b :: q) :: more, by simp, List.forall_mem_cons.2 ⟨?_, hmore⟩, ?_⟩
        · simp [hq, Ne.symm hb]
        · rw [stacked, List.intercalate_cons_cons_left]
          rfl
  obtain ⟨ps, hne, hps, rfl⟩ := hsome
  rw [pieces_stacked hne hps] at hp
  exact hps p hp

theorem endLine_reverse_eq_chomp (piece : Text) : endLine piece.reverse = chomp piece := by
  rw [chomp, ← List.head?_reverse]
  cases hrev : piece.reverse with
  | nil =>
    obtain rfl := List.reverse_eq_nil_iff.1 hrev
    rfl
  | cons b rest =>
    have hpiece : piece = rest.reverse ++ [b] := by
      rw [← List.reverse_reverse piece, hrev, List.reverse_cons]
    by_cases hb : b = carriageReturn
    · simp [endLine, hb, hpiece]
    · simp [endLine, hb, hpiece]

theorem linesFrom_append {line : Text} (hline : newline ∉ line) {count : Nat}
    (hcount : count + line.length < lineLimit) (taken : Text) (done : List Text) (rest : Text) :
    linesFrom taken count done (line ++ rest) =
      linesFrom (line.reverse ++ taken) (count + line.length) done rest := by
  induction line generalizing taken count with
  | nil => rfl
  | cons b line ih =>
    rw [List.mem_cons, not_or] at hline
    rw [List.length_cons] at hcount
    rw [List.cons_append, linesFrom, if_neg (Ne.symm hline.1), if_pos (by omega),
      ih hline.2 (by omega), List.reverse_cons, List.append_assoc, List.length_cons]
    congr 1
    omega

theorem linesFrom_stacked_of_short {ps : List Text} (hne : ps ≠ []) (hnewline : ∀ p ∈ ps, newline ∉ p)
    (hshort : ∀ p ∈ ps, p.length < lineLimit) (done : List Text) :
    linesFrom [] 0 done (stacked ps) = ⟨done.reverse ++ (delivered ps).map chomp, false⟩ := by
  induction ps generalizing done with
  | nil => contradiction
  | cons p rest ih =>
    obtain ⟨hp, hrest⟩ := List.forall_mem_cons.1 hnewline
    obtain ⟨hlength, hlengths⟩ := List.forall_mem_cons.1 hshort
    have hcount : 0 + p.length < lineLimit := by rwa [Nat.zero_add]
    cases rest with
    | nil =>
      have hread := linesFrom_append hp hcount [] done []
      rw [List.append_nil, List.append_nil] at hread
      rw [stacked, List.intercalate_singleton, hread]
      by_cases hempty : p = []
      · simp [hempty, linesFrom, delivered]
      · obtain ⟨b, more, hrev⟩ := List.exists_cons_of_ne_nil (mt List.reverse_eq_nil_iff.1 hempty)
        rw [hrev, linesFrom, ← hrev, endLine_reverse_eq_chomp]
        simp [delivered, hempty]
    | cons q more =>
      rw [stacked_cons_cons, linesFrom_append hp hcount, linesFrom, if_pos rfl, List.append_nil,
        endLine_reverse_eq_chomp, ih (List.cons_ne_nil q more) hrest hlengths]
      simp [delivered]

theorem linesFrom_append_of_long {line : Text} (hline : newline ∉ line) {count : Nat}
    (hstart : count < lineLimit) (hlong : lineLimit ≤ count + line.length) (taken : Text)
    (done : List Text) (rest : Text) : linesFrom taken count done (line ++ rest) = ⟨done.reverse, true⟩ := by
  induction line generalizing taken count with
  | nil =>
    rw [List.length_nil] at hlong
    omega
  | cons b line ih =>
    rw [List.mem_cons, not_or] at hline
    rw [List.length_cons] at hlong
    rw [List.cons_append, linesFrom, if_neg (Ne.symm hline.1)]
    split
    · exact ih hline.2 (by assumption) (by omega) (b :: taken)
    · rfl

theorem linesFrom_stacked_of_long {p : Text} (hnewline : newline ∉ p) (hlong : lineLimit ≤ p.length)
    (done later : List Text) : linesFrom [] 0 done (stacked (p :: later)) = ⟨done.reverse, true⟩ := by
  have hread := linesFrom_append_of_long hnewline (show 0 < lineLimit by decide) (by rwa [Nat.zero_add]) [] done
  cases later with
  | nil => rw [stacked, List.intercalate_singleton, ← List.append_nil p, hread]
  | cons q more => rw [stacked_cons_cons, hread]

theorem short_of_linesFrom_stacked {ps : List Text} (hnewline : ∀ p ∈ ps, newline ∉ p) {done : List Text}
    (h : (linesFrom [] 0 done (stacked ps)).overlong = false) : ∀ p ∈ ps, p.length < lineLimit := by
  induction ps generalizing done with
  | nil => simp
  | cons p rest ih =>
    obtain ⟨hp, hrest⟩ := List.forall_mem_cons.1 hnewline
    have hlength : p.length < lineLimit := by
      by_contra hlong
      rw [linesFrom_stacked_of_long hp (Nat.le_of_not_lt hlong)] at h
      contradiction
    refine List.forall_mem_cons.2 ⟨hlength, ?_⟩
    cases rest with
    | nil => simp
    | cons q more =>
      rw [stacked_cons_cons, linesFrom_append hp (by rwa [Nat.zero_add]), linesFrom, if_pos rfl] at h
      exact ih hrest h

theorem lines_of_short {t : Text} (h : ∀ p ∈ pieces t, p.length < lineLimit) :
    lines t = ⟨(delivered (pieces t)).map chomp, false⟩ := by
  have hread := linesFrom_stacked_of_short (pieces_ne_nil t) (fun p => newline_notMem_of_mem_pieces) h []
  rwa [stacked_pieces] at hread

theorem short_of_read {t : Text} (h : (lines t).overlong = false) : ∀ p ∈ pieces t, p.length < lineLimit := by
  rw [lines, ← stacked_pieces t] at h
  exact short_of_linesFrom_stacked (fun p => newline_notMem_of_mem_pieces) h

/-- Texts that end in no carriage return are read as they stand when each of them is on a line of its own. -/
theorem lines_stacked {ps : List Text} (hends : ∀ p ∈ ps, p ≠ [] ∧ chomp p = p)
    (hnewline : ∀ p ∈ ps, newline ∉ p)
    (hshort : ∀ p ∈ ps, p.length < lineLimit) : lines (stacked ps) = ⟨ps, false⟩ := by
  by_cases hne : ps = []
  · subst hne
    rfl
  · have hpieces := pieces_stacked hne hnewline
    have hdelivered := delivered_of_ne_nil fun p hp => (hends p hp).1
    have hchomp : ps.map chomp = ps := by
      rw [List.map_congr_left fun p hp => (hends p hp).2, List.map_id']
    rw [lines_of_short (by rwa [hpieces]), hpieces, hdelivered, hchomp]

theorem linesFrom_eq (line : Text) (count : Nat) (done : List Text) (t : Text) :
    linesFrom line count done t =
      ⟨done.reverse ++ (linesFrom line count [] t).lines, (linesFrom line count [] t).overlong⟩ := by
  induction t generalizing line count done with
  | nil => cases line <;> simp [linesFrom]
  | cons b rest ih =>
    rw [linesFrom, linesFrom]
    split
    · rw [ih [] 0 (endLine line :: done), ih [] 0 [endLine line]]
      simp
    · split
      · exact ih (b :: line) (count + 1) done
      · simp

theorem lines_stacked_append {done more : List Text} (hnewline : ∀ p ∈ done, newline ∉ p)
    (hshort : ∀ p ∈ done, p.length < lineLimit) (hmore : more ≠ []) :
    lines (stacked (done ++ more)) =
      ⟨done.map chomp ++ (lines (stacked more)).lines, (lines (stacked more)).overlong⟩ := by
  induction done with
  | nil => rfl
  | cons p rest ih =>
    obtain ⟨hp, hrest⟩ := List.forall_mem_cons.1 hnewline
    obtain ⟨hlength, hlengths⟩ := List.forall_mem_cons.1 hshort
    obtain ⟨q, later, heq⟩ := List.exists_cons_of_ne_nil (List.append_ne_nil_of_right_ne_nil rest hmore)
    have hread := ih hrest hlengths
    unfold lines at hread ⊢
    rw [List.cons_append, heq, stacked_cons_cons, linesFrom_append hp (by rwa [Nat.zero_add]), linesFrom, if_pos rfl,
      List.append_nil, endLine_reverse_eq_chomp, linesFrom_eq, ← heq, hread]
    simp

theorem lines_stacked_of_long {p : Text} (hnewline : newline ∉ p) (hlong : lineLimit ≤ p.length)
    (later : List Text) : lines (stacked (p :: later)) = ⟨[], true⟩ :=
  linesFrom_stacked_of_long hnewline hlong [] later

theorem exists_long_of_overlong {t : Text} (h : (lines t).overlong = true) :
    ∃ done p later, pieces t = done ++ p :: later ∧ (∀ q ∈ done, q.length < lineLimit) ∧
      lineLimit ≤ p.length ∧ (lines t).lines = done.map chomp := by
  have hlong : ((pieces t).find? fun p => lineLimit ≤ p.length) ≠ none := by
    intro hnone
    rw [lines_of_short (by simpa using hnone)] at h
    contradiction
  obtain ⟨p, hfind⟩ := Option.ne_none_iff_exists'.1 hlong
  obtain ⟨hp, done, later, hpieces, hdone⟩ := List.find?_eq_some_iff_append.1 hfind
  have hnewline : ∀ q ∈ done ++ p :: later, newline ∉ q := by
    rw [← hpieces]
    exact fun q => newline_notMem_of_mem_pieces
  obtain ⟨hclean, hrest⟩ := List.forall_mem_append.1 hnewline
  have hshort : ∀ q ∈ done, q.length < lineLimit := by simpa using hdone
  have hread := lines_stacked_append hclean hshort (List.cons_ne_nil p later)
  rw [lines_stacked_of_long (hrest p (List.mem_cons_self ..)) (by simpa using hp), List.append_nil, ← hpieces,
    stacked_pieces] at hread
  refine ⟨done, p, later, hpieces, hshort, by simpa using hp, ?_⟩
  rw [hread]

theorem exists_lines_stacked_cons {p : Text} (hne : p ≠ []) (hnewline : newline ∉ p) (hshort : p.length < lineLimit)
    (later : List Text) : ∃ more, (lines (stacked (p :: later))).lines = chomp p :: more := by
  cases later with
  | nil =>
    have hread := linesFrom_stacked_of_short (List.cons_ne_nil p []) (by simpa) (by simpa) []
    rw [lines, hread]
    exact ⟨[], by simp [delivered, hne]⟩
  | cons q more =>
    have hread : lines (stacked ([p] ++ q :: more)) = _ :=
      lines_stacked_append (by simpa) (by simpa) (List.cons_ne_nil q more)
    rw [List.singleton_append] at hread
    rw [hread]
    exact ⟨_, rfl⟩

end Asm16.Text
