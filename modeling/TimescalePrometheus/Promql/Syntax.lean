import Mathlib.Data.List.Chain
import Mathlib.Data.Rat.Defs
import TimescalePrometheus.Query.SubQueries

/-!
The PromQL syntax tree as the preparation of a query reads it, and the walk over it. The
parser and its walk belong to Prometheus: `Children` lists the children of a node, and
`Walk` visits a node before its children, each node with the path of its ancestors.
-/

namespace TimescalePrometheus.Promql.Syntax

open Query.SubQueries

/-! Durations are in nanoseconds, and times in nanoseconds since 1970. -/

/-- In nanoseconds. -/
def millisecond : Int := 1000000

def durationMilliseconds (d : Int) : Int := d.tdiv millisecond

/-- `timestamp.FromTime`, which rounds down. -/
def fromTime (t : Int) : Int := t / millisecond

/-- The engine's own conversion, which rounds towards 1970. -/
def timeMilliseconds (t : Int) : Int := t.tdiv millisecond

theorem durationMilliseconds_mul (d : Int) : durationMilliseconds (d * millisecond) = d :=
  Int.mul_tdiv_cancel d (by decide)

theorem timeMilliseconds_mul (t : Int) : timeMilliseconds (t * millisecond) = t :=
  Int.mul_tdiv_cancel t (by decide)

theorem fromTime_mul (t : Int) : fromTime (t * millisecond) = t :=
  Int.mul_ediv_cancel t (by decide)

/-- `parser.ValueType`. -/
inductive ValueType where
  | scalar
  | vector
  | matrix
  | string
  deriving DecidableEq

/-- `parser.Function`. -/
structure Func where
  name : String
  returnType : ValueType
  deriving DecidableEq

/-- `parser.VectorSelector`. -/
structure VectorSelector where
  labelMatchers : List Matcher
  offset : Int
  deriving DecidableEq

/-- `parser.Expr`. -/
inductive Expr where
  | numberLiteral (val : ℚ)
  | stringLiteral (val : String)
  | vectorSelector (selector : VectorSelector)
  | matrixSelector (selector : VectorSelector) (range : Int)
  | subqueryExpr (expr : Expr) (range offset step : Int)
  | call (func : Func) (args : List Expr)
  | aggregateExpr (op : String) (expr : Expr) (param : Option Expr) (grouping : List String)
      (without : Bool)
  | binaryExpr (op : String) (lhs rhs : Expr)
  | parenExpr (expr : Expr)
  | unaryExpr (op : String) (expr : Expr)

/-- `Type`. -/
def Expr.type : Expr → ValueType
  | .numberLiteral _ => .scalar
  | .stringLiteral _ => .string
  | .vectorSelector _ => .vector
  | .matrixSelector _ _ => .matrix
  | .subqueryExpr _ _ _ _ => .matrix
  | .call func _ => func.returnType
  | .aggregateExpr _ _ _ _ _ => .vector
  | .binaryExpr _ lhs rhs =>
    if lhs.type = .scalar ∧ rhs.type = .scalar then .scalar else .vector
  | .parenExpr expr => expr.type
  | .unaryExpr _ expr => expr.type

/-- `Children`. -/
def Expr.children : Expr → List Expr
  | .numberLiteral _ | .stringLiteral _ | .vectorSelector _ => []
  | .matrixSelector selector _ => [.vectorSelector selector]
  | .subqueryExpr expr _ _ _ => [expr]
  | .call _ args => args
  | .aggregateExpr _ expr param _ _ => expr :: param.toList
  | .binaryExpr _ lhs rhs => [lhs, rhs]
  | .parenExpr expr => [expr]
  | .unaryExpr _ expr => [expr]

/-- A node with its ancestors, the direct parent last. -/
abbrev Visit := Expr × List Expr

mutual

/-- The visits of `Walk` in their order, for a visitor that descends from the nodes that
`descends` names. -/
def walk (descends : Expr → Bool) (path : List Expr) : Expr → List Visit
  | .numberLiteral val => [(.numberLiteral val, path)]
  | .stringLiteral val => [(.stringLiteral val, path)]
  | .vectorSelector selector => [(.vectorSelector selector, path)]
  | .matrixSelector selector range =>
    let node := Expr.matrixSelector selector range
    (node, path) ::
      if descends node then [(.vectorSelector selector, path ++ [node])] else []
  | .subqueryExpr expr range offset step =>
    let node := Expr.subqueryExpr expr range offset step
    (node, path) :: if descends node then walk descends (path ++ [node]) expr else []
  | .call func args =>
    let node := Expr.call func args
    (node, path) :: if descends node then walkList descends (path ++ [node]) args else []
  | .aggregateExpr op expr param grouping without =>
    let node := Expr.aggregateExpr op expr param grouping without
    (node, path) ::
      if descends node then
        walk descends (path ++ [node]) expr ++ walkOption descends (path ++ [node]) param
      else []
  | .binaryExpr op lhs rhs =>
    let node := Expr.binaryExpr op lhs rhs
    (node, path) ::
      if descends node then
        walk descends (path ++ [node]) lhs ++ walk descends (path ++ [node]) rhs
      else []
  | .parenExpr expr =>
    let node := Expr.parenExpr expr
    (node, path) :: if descends node then walk descends (path ++ [node]) expr else []
  | .unaryExpr op expr =>
    let node := Expr.unaryExpr op expr
    (node, path) :: if descends node then walk descends (path ++ [node]) expr else []

def walkList (descends : Expr → Bool) (path : List Expr) : List Expr → List Visit
  | [] => []
  | expr :: rest => walk descends path expr ++ walkList descends path rest

def walkOption (descends : Expr → Bool) (path : List Expr) : Option Expr → List Visit
  | none => []
  | some expr => walk descends path expr

end

theorem walkList_eq (descends : Expr → Bool) (path : List Expr) (exprs : List Expr) :
    walkList descends path exprs = exprs.flatMap (walk descends path) := by
  induction exprs with
  | nil => rfl
  | cons expr rest ih => rw [walkList, ih, List.flatMap_cons]

theorem walkOption_eq (descends : Expr → Bool) (path : List Expr) (param : Option Expr) :
    walkOption descends path param = param.toList.flatMap (walk descends path) := by
  cases param <;> simp [walkOption]

theorem walk_eq (descends : Expr → Bool) (path : List Expr) (expr : Expr) :
    walk descends path expr =
      (expr, path) ::
        if descends expr then expr.children.flatMap (walk descends (path ++ [expr]))
        else [] := by
  cases expr <;> simp [walk, Expr.children, walkList_eq, walkOption_eq]

/-- A property that every node has once its children have it. -/
def Hereditary (motive : Expr → Prop) : Prop :=
  ∀ expr : Expr, (∀ child ∈ expr.children, motive child) → motive expr

section ChildInduction

variable {motive : Expr → Prop}

mutual

theorem Hereditary.holds (h : Hereditary motive) : ∀ expr : Expr, motive expr
  | .numberLiteral _ => h _ (List.forall_mem_nil _)
  | .stringLiteral _ => h _ (List.forall_mem_nil _)
  | .vectorSelector _ => h _ (List.forall_mem_nil _)
  | .matrixSelector _ _ => h _ (List.forall_mem_singleton.mpr (h _ (List.forall_mem_nil _)))
  | .subqueryExpr expr _ _ _ => h _ (List.forall_mem_singleton.mpr (h.holds expr))
  | .call _ args => h _ (h.holdsList args)
  | .aggregateExpr _ expr param _ _ =>
    h _ (List.forall_mem_cons.mpr ⟨h.holds expr, h.holdsOption param⟩)
  | .binaryExpr _ lhs rhs =>
    h _ (List.forall_mem_cons.mpr ⟨h.holds lhs, List.forall_mem_singleton.mpr (h.holds rhs)⟩)
  | .parenExpr expr => h _ (List.forall_mem_singleton.mpr (h.holds expr))
  | .unaryExpr _ expr => h _ (List.forall_mem_singleton.mpr (h.holds expr))

theorem Hereditary.holdsList (h : Hereditary motive) :
    ∀ exprs : List Expr, ∀ expr ∈ exprs, motive expr
  | [] => List.forall_mem_nil _
  | expr :: rest => List.forall_mem_cons.mpr ⟨h.holds expr, h.holdsList rest⟩

theorem Hereditary.holdsOption (h : Hereditary motive) :
    ∀ param : Option Expr, ∀ expr ∈ param.toList, motive expr
  | none => List.forall_mem_nil _
  | some expr => List.forall_mem_singleton.mpr (h.holds expr)

end

@[elab_as_elim]
theorem Expr.childInduction (expr : Expr)
    (node : ∀ expr : Expr, (∀ child ∈ expr.children, motive child) → motive expr) :
    motive expr :=
  Hereditary.holds node expr

end ChildInduction

section Ancestors

variable {descends : Expr → Bool}

theorem mem_walk_cases {path : List Expr} {expr : Expr} {visit : Visit}
    (h : visit ∈ walk descends path expr) :
    visit = (expr, path) ∨
      ∃ child ∈ expr.children, visit ∈ walk descends (path ++ [expr]) child := by
  rw [walk_eq, List.mem_cons] at h
  refine h.imp id ?_
  intro hmem
  split at hmem
  · exact List.mem_flatMap.mp hmem
  · exact absurd hmem List.not_mem_nil

/-- In a path each node is a child of the one before. -/
abbrev IsPath (nodes : List Expr) : Prop :=
  nodes.IsChain fun parent child => child ∈ parent.children

theorem isPath_of_mem_walk {expr : Expr} {path : List Expr} {visit : Visit}
    (hmem : visit ∈ walk descends path expr) (hpath : IsPath (path ++ [expr])) :
    IsPath (visit.2 ++ [visit.1]) := by
  induction expr using Expr.childInduction generalizing path with
  | node expr ih =>
    rcases mem_walk_cases hmem with rfl | ⟨child, hchild, hmem⟩
    · exact hpath
    · refine ih child hchild hmem ?_
      refine List.isChain_append.mpr ⟨hpath, List.isChain_singleton _, ?_⟩
      simpa using hchild

theorem ancestor_mem_walk {expr : Expr} {path : List Expr} {visit : Visit}
    (hmem : visit ∈ walk descends path expr) {node : Expr} (hnode : node ∈ visit.2) :
    node ∈ path ∨ ∃ p, (node, p) ∈ walk descends path expr := by
  induction expr using Expr.childInduction generalizing path with
  | node expr ih =>
    rw [walk_eq] at hmem ⊢
    rcases List.mem_cons.mp hmem with rfl | hmem
    · exact .inl hnode
    · split at hmem
      · obtain ⟨child, hchild, hmem⟩ := List.mem_flatMap.mp hmem
        rcases ih child hchild hmem with hpath | ⟨p, hp⟩
        · rcases List.mem_append.mp hpath with hpath | hself
          · exact .inl hpath
          · rw [List.mem_singleton.mp hself]
            exact .inr ⟨path, List.mem_cons_self⟩
        · rw [if_pos ‹_›]
          exact .inr ⟨p, List.mem_cons_of_mem _ (List.mem_flatMap_of_mem hchild hp)⟩
      · exact absurd hmem List.not_mem_nil

end Ancestors

end TimescalePrometheus.Promql.Syntax
