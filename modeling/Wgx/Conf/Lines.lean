import Wgx.Conf.Errors

/-!
# Lines and pieces

`fgets` cuts a file behind each newline, and cuts a line that does not fit into the buffer once
more.  A newline at the end of a piece is trimmed away, so that a file whose lines fit is read line
by line.

* `fgetsFrom_line`, `fgetsFrom_full`, `fgetsFrom_end`: how a piece ends;
* `fileOf`, `IsLine`: the text with some lines, and the lines that fit into the buffer;
* `confRun_fileOf`: the loop over such a text is the loop over its lines.
-/

namespace Wgx

/-! ### How a piece ends -/

/-- A piece that ends with a newline. -/
theorem fgetsFrom_line {line : List Byte} (rest : List Byte) (hnl : newline ∉ line) :
    ∀ (cur : List Byte) {room : ℕ}, line.length < room →
      fgetsFrom cur room (line ++ newline :: rest) =
        (cur ++ line ++ [newline]) :: fgetsPieces rest := by
  induction line with
  | nil =>
    intro cur room _
    simp [fgetsFrom, fgetsPieces]
  | cons ch line ih =>
    intro cur room hroom
    have hch : ch ≠ newline := fun h => hnl (by simp [h])
    rw [List.length_cons] at hroom
    rw [List.cons_append, fgetsFrom, if_neg (not_or.mpr ⟨hch, by omega⟩),
      ih (fun h => hnl (by simp [h])) (cur ++ [ch]) (by omega)]
    simp

/-- A piece that fills the buffer. -/
theorem fgetsFrom_full {line : List Byte} (rest : List Byte) (hnl : newline ∉ line) :
    ∀ (cur : List Byte) {room : ℕ}, 0 < room → room ≤ line.length →
      fgetsFrom cur room (line ++ rest) =
        (cur ++ line.take room) :: fgetsPieces (line.drop room ++ rest) := by
  induction line with
  | nil =>
    intro cur room hpos hroom
    rw [List.length_nil] at hroom
    omega
  | cons ch line ih =>
    intro cur room hpos hroom
    have hch : ch ≠ newline := fun h => hnl (by simp [h])
    rw [List.length_cons] at hroom
    rw [List.cons_append, fgetsFrom]
    by_cases hone : room ≤ 1
    · have hroom : room = 1 := by omega
      subst hroom
      rw [if_pos (.inr le_rfl)]
      simp [fgetsPieces]
    · obtain ⟨room, rfl⟩ : ∃ n, room = n + 1 := ⟨room - 1, by omega⟩
      rw [if_neg (not_or.mpr ⟨hch, hone⟩), Nat.add_sub_cancel,
        ih (fun h => hnl (by simp [h])) (cur ++ [ch]) (by omega) (by omega)]
      simp

/-- A piece that ends with the file. -/
theorem fgetsFrom_end {line : List Byte} (hnl : newline ∉ line) :
    ∀ (cur : List Byte) {room : ℕ}, line.length < room →
      fgetsFrom cur room line = if cur ++ line = [] then [] else [cur ++ line] := by
  induction line with
  | nil =>
    intro cur room _
    simp [fgetsFrom]
  | cons ch line ih =>
    intro cur room hroom
    have hch : ch ≠ newline := fun h => hnl (by simp [h])
    rw [List.length_cons] at hroom
    rw [fgetsFrom, if_neg (not_or.mpr ⟨hch, by omega⟩),
      ih (fun h => hnl (by simp [h])) (cur ++ [ch]) (by omega)]
    simp

/-! ### Blanks at the ends -/

theorem trim_concat {s : List Byte} {ch : Byte} (h : isSpace ch = true) :
    trim (s ++ [ch]) = trim s := by
  simp only [trim, List.dropWhile_append]
  by_cases hs : (s.dropWhile isSpace).isEmpty = true
  · rw [if_pos hs, List.isEmpty_iff.mp hs]
    simp [h]
  · rw [if_neg hs, List.rdropWhile_concat_pos _ _ _ h]

theorem cstr_append (s t : List Byte) :
    cstr (s ++ t) = if 0#8 ∈ s then cstr s else s ++ cstr t := by
  induction s with
  | nil => simp
  | cons ch s ih =>
    by_cases hch : ch = 0#8
    · simp [cstr, hch]
    · have hcons : ∀ l, cstr (ch :: l) = ch :: cstr l := fun l =>
        List.takeWhile_cons_of_pos (by simpa using hch)
      have hmem : 0#8 ∈ ch :: s ↔ 0#8 ∈ s := by
        rw [List.mem_cons, or_iff_right fun h => hch h.symm]
      rw [List.cons_append, hcons, hcons, ih]
      simp only [hmem]
      split_ifs <;> rfl

theorem confLine_concat_newline (line : List Byte) :
    confLine (line ++ [newline]) = confLine line := by
  have htrim : trim (cstr (line ++ [newline])) = trim (cstr line) := by
    rw [cstr_append]
    split_ifs with h
    · rfl
    · have hline : cstr line = line := by
        have := cstr_append line []
        rw [if_neg h] at this
        simpa [cstr] using this
      rw [hline]
      exact trim_concat (by decide)
  simp only [confLine, htrim]

/-! ### A text and its lines -/

/-- The text with some lines. -/
def fileOf (lines : List (List Byte)) : List Byte := List.intercalate [newline] lines

/-- A line that fits into the buffer. -/
def IsLine (line : List Byte) : Prop := newline ∉ line ∧ line.length < 512

theorem confLine_nil : confLine [] = .skip := by decide

section Loop

variable {c : Crypto} {cenv : ConfEnv}

theorem confRun_foldl (st : ConfState) (pieces : List (List Byte)) :
    Machine.run (confStep c cenv) st pieces =
      Machine.run (lineStep c cenv) st (pieces.map confLine) := by
  simp only [Machine.run, List.foldl_map]
  rfl

theorem lineStep_skip (st : ConfState) : lineStep c cenv st .skip = st := by
  unfold lineStep
  split_ifs <;> rfl

/-- A line that fits and its newline, whether the newline fits as well or not. -/
theorem run_line {line : List Byte} (h : IsLine line) (rest : List Byte) (st : ConfState) :
    Machine.run (confStep c cenv) st (fgetsPieces (line ++ newline :: rest)) =
      Machine.run (confStep c cenv) (lineStep c cenv st (confLine line)) (fgetsPieces rest) := by
  by_cases hlen : line.length < pieceSize
  · rw [fgetsPieces, fgetsFrom_line rest h.1 [] hlen, confRun_foldl, confRun_foldl, List.map_cons,
      List.nil_append, confLine_concat_newline]
    rfl
  · have hfull : line.length = pieceSize := by
      have := h.2
      unfold pieceSize at *
      omega
    have hblank : fgetsPieces (newline :: rest) = [newline] :: fgetsPieces rest :=
      @fgetsFrom_line [] rest (by simp) [] pieceSize (by decide)
    have hskip : confLine [newline] = .skip := by decide
    rw [fgetsPieces, fgetsFrom_full (newline :: rest) h.1 [] (by decide) hfull.ge, ← hfull,
      List.take_length, List.drop_length, List.nil_append, List.nil_append, hblank, confRun_foldl,
      confRun_foldl, List.map_cons, List.map_cons, hskip]
    show Machine.run _ (lineStep c cenv (lineStep c cenv st (confLine line)) .skip) _ = _
    rw [lineStep_skip]

/-- The last line of a file, without a newline. -/
theorem run_last {line : List Byte} (h : IsLine line) (st : ConfState) :
    Machine.run (confStep c cenv) st (fgetsPieces line) = lineStep c cenv st (confLine line) := by
  by_cases hlen : line.length < pieceSize
  · rw [fgetsPieces, fgetsFrom_end h.1 [] hlen, List.nil_append]
    split_ifs with hnil
    · rw [hnil, confLine_nil, lineStep_skip]
      rfl
    · rfl
  · have hfull : line.length = pieceSize := by
      have := h.2
      unfold pieceSize at *
      omega
    have hpieces : fgetsFrom [] pieceSize (line ++ []) = _ :=
      fgetsFrom_full [] h.1 [] (by decide) hfull.ge
    rw [List.append_nil, List.nil_append, ← hfull, List.take_length, List.drop_length] at hpieces
    rw [fgetsPieces, ← hfull, hpieces]
    rfl

/-- **A file whose lines fit is read line by line.** -/
theorem confRun_fileOf (dev : Device) {lines : List (List Byte)} (h : ∀ line ∈ lines, IsLine line) :
    confRun c cenv dev (fileOf lines) = stateAt c cenv dev (lines.map confLine) := by
  unfold confRun stateAt
  generalize ConfState.start dev = st
  induction lines generalizing st with
  | nil => rfl
  | cons line lines ih =>
    have hline : IsLine line := h line (by simp)
    cases lines with
    | nil =>
      rw [fileOf, List.intercalate_singleton]
      exact run_last hline st
    | cons line' lines =>
      rw [fileOf, List.intercalate_cons_cons, List.append_assoc, List.singleton_append,
        run_line hline]
      exact ih (fun l hl => h l (by simp [hl])) _

end Loop

end Wgx
