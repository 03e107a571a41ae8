import Simian.Tree

/-!
# What the spans of a tree cover

The extent of a tree is what is left of it when all but the spans is taken away: the span of each node, with the extents of its parts in the order in which they are written. An extent is nested if every node contains its parts and no part reaches into the next. That is shown part by part, for parts that fit between two offsets.
-/

namespace Simian

/-- The span of a node and the extents of its parts, in the order in which they are written. -/
inductive Extent where
  | node (span : Span) (parts : List Extent)

def Extent.span : Extent → Span
  | node span _ => span

/-- Every span goes forward and contains those of its parts, of which each ends before the next ones start. -/
inductive Extent.Nested : Extent → Prop
  | node {span : Span} {parts : List Extent} (forward : span.start ≤ span.stop)
      (contained : ∀ part ∈ parts, span.start ≤ part.span.start ∧ part.span.stop ≤ span.stop)
      (apart : parts.Pairwise fun part next => part.span.stop ≤ next.span.start)
      (nested : ∀ part ∈ parts, part.Nested) : Nested (.node span parts)

/-! ### The extents of trees -/

def Binder.extent (b : Binder) : Extent := .node b.span []

mutual

def Expr.extent : Expr → Extent
  | .ident span _ | .int span _ | .str span _ | .bool span _ => .node span []
  | .unary span _ right => .node span [right.extent]
  | .binary span _ left right => .node span [left.extent, right.extent]
  | .index span left index => .node span [left.extent, index.extent]
  | .cond span condition consequence alternative =>
    .node span (condition.extent :: consequence.extent :: elseExtents alternative)
  | .fn span params body => .node span (params.map Binder.extent ++ [body.extent])
  | .macroLit span params body => .node span (params.map Binder.extent ++ [body.extent])
  | .call span callee args => .node span (callee.extent :: listExtents args)
  | .array span elements => .node span (listExtents elements)
  | .hash span pairs => .node span (pairExtents pairs)

def elseExtents : Option Block → List Extent
  | none => []
  | some block => [block.extent]

def listExtents : List Expr → List Extent
  | [] => []
  | e :: es => e.extent :: listExtents es

/-- The extents of keys and values in turn. -/
def pairExtents : List (Expr × Expr) → List Extent
  | [] => []
  | (key, value) :: ps => key.extent :: value.extent :: pairExtents ps

def Stmt.extent : Stmt → Extent
  | .bind span binder value => .node span [binder.extent, value.extent]
  | .ret span value => .node span [value.extent]
  | .expr span value => .node span [value.extent]

def Block.extent : Block → Extent
  | .mk span ss => .node span (statementExtents ss)

def statementExtents : List Stmt → List Extent
  | [] => []
  | s :: ss => s.extent :: statementExtents ss

end

def Program.extent (p : Program) : Extent := .node p.span (statementExtents p.statements)

@[simp] theorem Binder.span_extent (b : Binder) : b.extent.span = b.span := rfl

@[simp] theorem Expr.span_extent (e : Expr) : e.extent.span = e.span := by
  cases e <;> rfl

@[simp] theorem Stmt.span_extent (s : Stmt) : s.extent.span = s.span := by
  cases s <;> rfl

@[simp] theorem Block.span_extent (b : Block) : b.extent.span = b.span := by
  cases b
  rfl

/-! ### Parts that fit between two offsets -/

/-- The extents are nested and lie one behind the other from the first offset on up to the second one. -/
def Fits (lo : Nat) : List Extent → (hi : Nat) → Prop
  | [], hi => lo ≤ hi
  | part :: parts, hi => lo ≤ part.span.start ∧ part.Nested ∧ Fits part.span.stop parts hi

theorem Extent.Nested.forward {e : Extent} (h : e.Nested) : e.span.start ≤ e.span.stop := by
  cases h with
  | node forward => exact forward

namespace Fits

variable {lo lo' hi hi' : Nat} {parts parts' : List Extent} {part : Extent}

theorem le (h : Fits lo parts hi) : lo ≤ hi := by
  induction parts generalizing lo with
  | nil => exact h
  | cons part parts ih =>
    obtain ⟨hlo, hpart, hrest⟩ := h
    exact Nat.le_trans hlo (Nat.le_trans hpart.forward (ih hrest))

theorem mono (h : Fits lo parts hi) (hlo : lo' ≤ lo) (hhi : hi ≤ hi') : Fits lo' parts hi' := by
  induction parts generalizing lo lo' with
  | nil => exact Nat.le_trans hlo (Nat.le_trans h hhi)
  | cons part parts ih =>
    obtain ⟨hstart, hpart, hrest⟩ := h
    exact ⟨Nat.le_trans hlo hstart, hpart, ih hrest (Nat.le_refl _)⟩

theorem append {mid : Nat} (h : Fits lo parts mid) (h' : Fits mid parts' hi) : Fits lo (parts ++ parts') hi := by
  induction parts generalizing lo with
  | nil => exact h'.mono h (Nat.le_refl hi)
  | cons part parts ih => exact ⟨h.1, h.2.1, ih h.2.2⟩

theorem mem (h : Fits lo parts hi) (hpart : part ∈ parts) :
    lo ≤ part.span.start ∧ part.span.stop ≤ hi ∧ part.Nested := by
  induction parts generalizing lo with
  | nil => exact nomatch hpart
  | cons first parts ih =>
    obtain ⟨hstart, hfirst, hrest⟩ := h
    rcases List.mem_cons.mp hpart with rfl | hpart
    · exact ⟨hstart, hrest.le, hfirst⟩
    · obtain ⟨hlo, hhi, hnested⟩ := ih hrest hpart
      exact ⟨Nat.le_trans hstart (Nat.le_trans hfirst.forward hlo), hhi, hnested⟩

theorem pairwise (h : Fits lo parts hi) : parts.Pairwise fun part next => part.span.stop ≤ next.span.start := by
  induction parts generalizing lo with
  | nil => exact .nil
  | cons part parts ih => exact .cons (fun next hnext => (h.2.2.mem hnext).1) (ih h.2.2)

/-- What fits into a span makes a nested extent. -/
theorem nested {span : Span} (h : Fits span.start parts span.stop) : (Extent.node span parts).Nested :=
  .node h.le (fun _ hpart => ⟨(h.mem hpart).1, (h.mem hpart).2.1⟩) h.pairwise fun _ hpart => (h.mem hpart).2.2

/-- A node whose parts fit into its span fits where its span does. -/
theorem node {span : Span} (h : Fits span.start parts span.stop) (hlo : lo ≤ span.start) (hhi : span.stop ≤ hi) :
    Fits lo [.node span parts] hi :=
  ⟨hlo, h.nested, hhi⟩

end Fits

end Simian
