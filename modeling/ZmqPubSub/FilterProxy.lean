import Mathlib.Data.List.Basic

/-!
A proxy model shows some rows of a source model whose rows come at its end and go at its front. What
the proxy itself is stays open: there are its operations, and the laws that a user of it relies on.
-/

namespace ZmqPubSub

/-- The operations, each on what the proxy keeps. A filter is a predicate of the numbers of source
rows, as the proxy calls it. -/
structure FilterProxy where
  State : Type
  initial : State
  /-- The source rows that are shown, in the order of the proxy's rows. -/
  sourceRows : State → List ℕ
  /-- A last row has come to the source model. -/
  rowInserted : (accepts : ℕ → Bool) → (row : ℕ) → State → State
  /-- The first rows have gone from the source model. -/
  rowsRemoved : (count : ℕ) → State → State
  invalidateFilter : (accepts : ℕ → Bool) → (rowCount : ℕ) → State → State

namespace FilterProxy

/-- The filter is asked about a row when it comes, and about all rows when it is invalidated. -/
structure Lawful (q : FilterProxy) : Prop where
  initial : q.sourceRows q.initial = []
  rowInserted : ∀ accepts row st, q.sourceRows (q.rowInserted accepts row st) =
    q.sourceRows st ++ if accepts row then [row] else []
  rowsRemoved : ∀ count st, q.sourceRows (q.rowsRemoved count st) =
    ((q.sourceRows st).filter fun row => count ≤ row).map fun row => row - count
  invalidateFilter : ∀ accepts rowCount st,
    q.sourceRows (q.invalidateFilter accepts rowCount st) = (List.range rowCount).filter accepts

/-- A proxy that keeps the list of the rows it shows. -/
def listing : FilterProxy where
  State := List ℕ
  initial := []
  sourceRows rows := rows
  rowInserted accepts row rows := rows ++ if accepts row then [row] else []
  rowsRemoved count rows := (rows.filter fun row => count ≤ row).map fun row => row - count
  invalidateFilter accepts rowCount _ := (List.range rowCount).filter accepts

theorem listing_lawful : listing.Lawful :=
  ⟨rfl, fun _ _ _ => rfl, fun _ _ => rfl, fun _ _ _ => rfl⟩

variable {α : Type*} {q : FilterProxy} {f : α → Bool} {rows : List α} {st : q.State}

def onRows (f : α → Bool) (rows : List α) (row : ℕ) : Bool := rows[row]?.any f

def acceptedRows (f : α → Bool) (rows : List α) : List ℕ :=
  (List.range rows.length).filter (onRows f rows)

theorem acceptedRows_cons (f : α → Bool) (x : α) (rows : List α) :
    acceptedRows f (x :: rows) =
      (if f x then [0] else []) ++ (acceptedRows f rows).map Nat.succ := by
  have htail : ((List.range rows.length).map Nat.succ).filter (onRows f (x :: rows)) =
      (acceptedRows f rows).map Nat.succ := by
    rw [List.filter_map]
    rfl
  rw [acceptedRows, List.length_cons, List.range_succ_eq_map, List.filter_cons, htail]
  cases hx : f x <;> simp [onRows, hx]

theorem acceptedRows_concat (f : α → Bool) (rows : List α) (x : α) :
    acceptedRows f (rows ++ [x]) = acceptedRows f rows ++ if f x then [rows.length] else [] := by
  have hbefore :
      (List.range rows.length).filter (onRows f (rows ++ [x])) = acceptedRows f rows := by
    refine List.filter_congr fun i hi => ?_
    rw [onRows, onRows, List.getElem?_append_left (List.mem_range.mp hi)]
  rw [acceptedRows, List.length_append, List.length_singleton, List.range_succ, List.filter_append,
    hbefore]
  cases hx : f x <;> simp [onRows, hx]

theorem acceptedRows_drop (f : α → Bool) (count : ℕ) (rows : List α) :
    ((acceptedRows f rows).filter fun row => count ≤ row).map (fun row => row - count) =
      acceptedRows f (rows.drop count) := by
  induction count generalizing rows with
  | zero => simp
  | succ count ih =>
    cases rows with
    | nil => rfl
    | cons x rows =>
      have hhead : (if f x then [0] else []).filter (fun row => decide (count + 1 ≤ row)) = [] := by
        split_ifs <;> simp
      rw [acceptedRows_cons, List.filter_append, hhead, List.nil_append, List.filter_map,
        List.map_map, List.drop_succ_cons, ← ih rows]
      congr 1
      · funext row
        exact Nat.succ_sub_succ row count
      · exact List.filter_congr fun row _ => decide_eq_decide.mpr Nat.succ_le_succ_iff

theorem map_acceptedRows (f : α → Bool) (rows : List α) :
    (acceptedRows f rows).map (fun row => rows[row]?) = (rows.filter f).map some := by
  induction rows with
  | nil => rfl
  | cons x rows ih =>
    rw [acceptedRows_cons, List.map_append, List.map_map]
    have htail : ((fun row => (x :: rows)[row]?) ∘ Nat.succ) = fun row => rows[row]? := rfl
    rw [htail, ih]
    cases hx : f x <;> simp [hx]

/-- The proxy shows the rows that the filter accepts. -/
def Shows (q : FilterProxy) (st : q.State) (f : α → Bool) (rows : List α) : Prop :=
  q.sourceRows st = acceptedRows f rows

theorem Lawful.shows_initial (h : q.Lawful) (f : α → Bool) : q.Shows q.initial f [] := h.initial

theorem Shows.rowInserted (hs : q.Shows st f rows) (h : q.Lawful) (x : α) :
    q.Shows (q.rowInserted (onRows f (rows ++ [x])) rows.length st) f (rows ++ [x]) := by
  have hnew : onRows f (rows ++ [x]) rows.length = f x := by simp [onRows]
  rw [Shows, h.rowInserted, hs, hnew, acceptedRows_concat]

theorem Shows.rowsRemoved (hs : q.Shows st f rows) (h : q.Lawful) (count : ℕ) :
    q.Shows (q.rowsRemoved count st) f (rows.drop count) := by
  rw [Shows, h.rowsRemoved, hs, acceptedRows_drop]

theorem Lawful.shows_invalidateFilter (h : q.Lawful) (f : α → Bool) (rows : List α) (st : q.State) :
    q.Shows (q.invalidateFilter (onRows f rows) rows.length st) f rows :=
  h.invalidateFilter _ _ st

def shownRows (q : FilterProxy) (st : q.State) (rows : List α) : List α :=
  (q.sourceRows st).filterMap fun row => rows[row]?

theorem Shows.shownRows_eq (hs : q.Shows st f rows) : q.shownRows st rows = rows.filter f := by
  have hid : q.shownRows st rows =
      ((q.sourceRows st).map fun row => rows[row]?).filterMap id := by
    rw [List.filterMap_map]
    rfl
  rw [hid, hs, map_acceptedRows, List.filterMap_map]
  exact List.filterMap_some

end FilterProxy

end ZmqPubSub
