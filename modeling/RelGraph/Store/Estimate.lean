/-!
Estimates of counts and costs: ten times the logarithm to base two, rounded. A product of counts is
a sum of estimates, and a sum of counts is read off a table.
-/
namespace RelGraph.Store

/-- An estimated count or cost. -/
abbrev Estimate := Int

namespace Estimate

/-- The estimates of eight to fifteen eighths, the whole aside. -/
def eighths : List Int := [0, 2, 3, 5, 6, 7, 8, 9]

/-- The estimate of a count. -/
def ofCount (n : Nat) : Estimate :=
  if n < 2 then 0
  else 10 * Nat.log2 n + eighths.getD (n * 8 / Nat.pow 2 (Nat.log2 n) % 8) 0

/-- How much a sum exceeds the greater estimate, by how far the lesser lies below it. -/
def excess (distance : Int) : Int :=
  if distance ≤ 1 then 10
  else if distance ≤ 3 then 9
  else if distance ≤ 5 then 8
  else if distance ≤ 8 then 7
  else if distance ≤ 11 then 6
  else if distance ≤ 14 then 5
  else if distance ≤ 18 then 4
  else if distance ≤ 24 then 3
  else if distance ≤ 31 then 2
  else if distance ≤ 49 then 1
  else 0

/-- The estimate of a sum. -/
def plus (a b : Estimate) : Estimate := max a b + excess (max a b - min a b)

/-- The cost of finding one among as many. -/
def depth (e : Estimate) : Estimate := if e ≤ 10 then 0 else ofCount e.toNat - 33

/-- How many rows a table is taken to have. -/
def tableRows : Estimate := 200

end Estimate
end RelGraph.Store
