import Recast.Ty.Registry

/-! # The standard methods

The sequence and query operators and the string methods that expressions may
call.  Query operators take quoted lambdas where sequence operators take plain
ones.
-/

namespace Recast

namespace Catalogue

private abbrev t0 : Ty := .param 0

private abbrev t1 : Ty := .param 1

private abbrev items : Ty := .seq .enumerable t0

private abbrev rows : Ty := .seq .queryable t0

private abbrev test : Ty := .func [t0] .boolean

private abbrev selector : Ty := .func [t0] t1

private def operator (name : String) (typeParams : Nat) (params : List Ty) (ret : Ty) : MethodSig :=
  ⟨"Enumerable", name, true, typeParams, params, ret⟩

private def queryOperator (name : String) (typeParams : Nat) (params : List Ty) (ret : Ty) :
    MethodSig :=
  ⟨"Queryable", name, true, typeParams, params, ret⟩

private def instanceMethod (declaring name : String) (params : List Ty) (ret : Ty) : MethodSig :=
  ⟨declaring, name, false, 0, params, ret⟩

def sequenceOperators : List MethodSig := [
  operator "Any" 1 [items] .boolean,
  operator "Any" 1 [items, test] .boolean,
  operator "All" 1 [items, test] .boolean,
  operator "Count" 1 [items] .int32,
  operator "Count" 1 [items, test] .int32,
  operator "Where" 1 [items, test] items,
  operator "Select" 2 [items, selector] (.seq .enumerable t1),
  operator "First" 1 [items] t0,
  operator "First" 1 [items, test] t0,
  operator "FirstOrDefault" 1 [items] t0,
  operator "FirstOrDefault" 1 [items, test] t0,
  operator "Contains" 1 [items, t0] .boolean,
  operator "OrderBy" 2 [items, selector] items,
  operator "OrderByDescending" 2 [items, selector] items,
  operator "Sum" 1 [items, .func [t0] .int32] .int32,
  operator "Max" 2 [items, selector] t1,
  operator "Min" 2 [items, selector] t1,
  operator "Take" 1 [items, .int32] items,
  operator "Skip" 1 [items, .int32] items]

def queryOperators : List MethodSig := [
  queryOperator "Where" 1 [rows, .expression test] rows,
  queryOperator "Select" 2 [rows, .expression selector] (.seq .queryable t1),
  queryOperator "OrderBy" 2 [rows, .expression selector] rows,
  queryOperator "OrderByDescending" 2 [rows, .expression selector] rows,
  queryOperator "Any" 1 [rows, .expression test] .boolean,
  queryOperator "Count" 1 [rows] .int32,
  queryOperator "First" 1 [rows] t0,
  queryOperator "Take" 1 [rows, .int32] rows,
  queryOperator "Skip" 1 [rows, .int32] rows]

def stringMethods : List MethodSig :=
  (["StartsWith", "EndsWith", "Contains", "Equals"].map fun name =>
    instanceMethod "String" name [.string] .boolean) ++
  ["ToUpper", "ToLower", "Trim"].map fun name => instanceMethod "String" name [] .string

def objectMethods : List MethodSig := [
  instanceMethod "Object" "ToString" [] .string,
  instanceMethod "Object" "Equals" [.object] .boolean]

def standard : List MethodSig :=
  sequenceOperators ++ queryOperators ++ stringMethods ++ objectMethods

end Catalogue

/-- The registry before anything is declared: the standard methods and no types. -/
def Registry.standard : Registry := { methods := Catalogue.standard }

end Recast
