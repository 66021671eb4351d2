import RelGraph.Store.Planning
/-!
A route through a table comes by every row of the table and by each of them once: whichever way the
planner takes, the rows are those of the table in some order.
-/
namespace RelGraph.Store

open Sql

namespace Route

theorem directed_perm (reversed : Bool) (rows : List StoredRow) :
    (directed reversed rows).Perm rows := by
  cases reversed with
  | false => exact .refl rows
  | true => exact rows.reverse_perm

theorem partition_perm (p : StoredRow → Bool) (rows : List StoredRow) :
    ((rows.partition p).1 ++ (rows.partition p).2).Perm rows := by
  rw [List.partition_eq_filter_filter]
  exact List.filter_append_perm p rows

mutual

/-- A route comes by the rows of the table, each once. -/
theorem arrange_perm (rows : List StoredRow) (route : Route) : (arrange rows route).Perm rows := by
  match route with
  | .byNumber reversed => exact directed_perm reversed rows
  | .along columns reversed => exact (directed_perm reversed _).trans (List.mergeSort_perm _ _)
  | .byCondition ways => exact arrangeWays_perm rows ways

theorem arrangeWays_perm (rows : List StoredRow) (ways : List (Condition × Route)) :
    (arrangeWays rows ways).Perm rows := by
  match ways with
  | [] => exact .refl rows
  | (c, route) :: rest =>
    -- The rows that meet the condition come first, and the others go the remaining ways.
    have hmet := arrange_perm (rows.partition fun r => (rowTruth (some c) r).holds).1 route
    have hothers := arrangeWays_perm (rows.partition fun r => (rowTruth (some c) r).holds).2 rest
    exact (hmet.append hothers).trans (partition_perm _ rows)

end

end Route
end RelGraph.Store
