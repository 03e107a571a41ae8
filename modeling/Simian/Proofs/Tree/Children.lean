import Simian.Tree.Transform

/-!
# Expressions and their children

The children of an expression are the expressions in it that a transformation comes to before it, in the order of the text: operands, a callee and its arguments, elements, keys and values in turn, and the values of the statements in blocks. The literal of a macro has none. Whatever the kind of an expression, to transform it is to transform its children one by one and to hand over the expression with the results in their place.
-/

namespace Simian

/-! ### Children -/

def Stmt.value : Stmt → Expr
  | bind _ _ value | ret _ value | expr _ value => value

def Stmt.withValue : Stmt → Expr → Stmt
  | bind span binder _, value => .bind span binder value
  | ret span _, value => .ret span value
  | expr span _, value => .expr span value

def Block.values (b : Block) : List Expr := b.statements.map Stmt.value

/-- Puts values into the statements of a block, from the first statement on. -/
def Block.withValues (b : Block) (values : List Expr) : Block :=
  .mk b.span (List.zipWith Stmt.withValue b.statements values)

def Program.values (p : Program) : List Expr := p.statements.map Stmt.value

def Program.withValues (p : Program) (values : List Expr) : Program :=
  { p with statements := List.zipWith Stmt.withValue p.statements values }

/-- Keys and values in turn. -/
def unpaired (pairs : List (Expr × Expr)) : List Expr := pairs.flatMap fun pair => [pair.1, pair.2]

def paired : List Expr → List (Expr × Expr)
  | key :: value :: rest => (key, value) :: paired rest
  | _ => []

def elseValues (alternative : Option Block) : List Expr := alternative.elim [] Block.values

def Expr.children : Expr → List Expr
  | .ident .. | .int .. | .str .. | .bool .. | .macroLit .. => []
  | .unary _ _ right => [right]
  | .binary _ _ left right => [left, right]
  | .index _ left i => [left, i]
  | .cond _ condition consequence alternative => condition :: (consequence.values ++ elseValues alternative)
  | .fn _ _ body => body.values
  | .call _ callee args => callee :: args
  | .array _ elements => elements
  | .hash _ pairs => unpaired pairs

/-- Puts other expressions in the place of the children, as many as there are. -/
def Expr.withChildren : Expr → List Expr → Expr
  | .unary span op _, [right] => .unary span op right
  | .binary span op _ _, [left, right] => .binary span op left right
  | .index span _ _, [left, i] => .index span left i
  | .cond span _ consequence alternative, condition :: values =>
    .cond span condition (consequence.withValues values)
      (alternative.map (·.withValues (values.drop consequence.statements.length)))
  | .fn span params body, values => .fn span params (body.withValues values)
  | .call span _ _, callee :: args => .call span callee args
  | .array span _, elements => .array span elements
  | .hash span _, parts => .hash span (paired parts)
  | e, _ => e

/-! ### Putting children back -/

theorem zipWith_value (ss : List Stmt) : List.zipWith Stmt.withValue ss (ss.map Stmt.value) = ss := by
  induction ss with
  | nil => rfl
  | cons s ss ih => cases s <;> exact congrArg _ ih

theorem paired_unpaired (pairs : List (Expr × Expr)) : paired (unpaired pairs) = pairs := by
  induction pairs with
  | nil => rfl
  | cons pair pairs ih => exact congrArg _ ih

theorem Block.withValues_values (b : Block) : b.withValues b.values = b := by
  cases b
  exact congrArg _ (zipWith_value _)

theorem Program.withValues_values (p : Program) : p.withValues p.values = p := by
  rw [withValues, values, zipWith_value]

/-- Values beyond the last statement are not looked at. -/
theorem zipWith_withValue_append {ss : List Stmt} {values : List Expr} (h : values.length = ss.length)
    (more : List Expr) : List.zipWith Stmt.withValue ss (values ++ more) = List.zipWith Stmt.withValue ss values := by
  induction ss generalizing values with
  | nil => rfl
  | cons s ss ih =>
    cases values with
    | nil => exact nomatch h
    | cons value values => exact congrArg (s.withValue value :: ·) (ih (Nat.succ.inj h))

theorem Block.length_values (b : Block) : b.values.length = b.statements.length := List.length_map ..

/-- The values of two blocks, one behind the other, go back to their blocks. -/
theorem Expr.withChildren_cond {span : Span} {condition condition' : Expr} {consequence : Block}
    {alternative : Option Block} {values : List Expr} (h : values.length = consequence.statements.length)
    (more : List Expr) :
    (Expr.cond span condition consequence alternative).withChildren (condition' :: (values ++ more)) =
      .cond span condition' (consequence.withValues values) (alternative.map (·.withValues more)) := by
  rw [withChildren, Block.withValues, zipWith_withValue_append h, ← h, List.drop_left]
  rfl

theorem Expr.withChildren_children (e : Expr) : e.withChildren e.children = e := by
  cases e with
  | cond span condition consequence alternative =>
    rw [children, withChildren_cond consequence.length_values, consequence.withValues_values]
    cases alternative with
    | none => rfl
    | some block => rw [Option.map_some, elseValues, Option.elim_some, block.withValues_values]
  | fn span params body => exact congrArg (Expr.fn span params) body.withValues_values
  | hash span pairs => exact congrArg (Expr.hash span) (paired_unpaired pairs)
  | _ => rfl

theorem map_value_zipWith {ss : List Stmt} {values : List Expr} (h : values.length = ss.length) :
    (List.zipWith Stmt.withValue ss values).map Stmt.value = values := by
  induction ss generalizing values with
  | nil => exact (List.length_eq_zero_iff.mp h).symm
  | cons s ss ih =>
    cases values with
    | nil => exact nomatch h
    | cons value values =>
      have hvalue : (s.withValue value).value = value := by cases s <;> rfl
      rw [List.zipWith_cons_cons, List.map_cons, hvalue, ih (Nat.succ.inj h)]

theorem Block.values_withValues {b : Block} {values : List Expr} (h : values.length = b.statements.length) :
    (b.withValues values).values = values :=
  map_value_zipWith h

theorem elseValues_withValues {alternative : Option Block} {values : List Expr}
    (h : values.length = (elseValues alternative).length) :
    elseValues (alternative.map (·.withValues values)) = values := by
  cases alternative with
  | none => exact (List.length_eq_zero_iff.mp h).symm
  | some block => exact Block.values_withValues (h.trans block.length_values)

theorem unpaired_paired {pairs : List (Expr × Expr)} {parts : List Expr} (h : parts.length = (unpaired pairs).length) :
    unpaired (paired parts) = parts := by
  induction pairs generalizing parts with
  | nil =>
    obtain rfl := List.length_eq_zero_iff.mp h
    rfl
  | cons pair pairs ih =>
    match parts, h with
    | key :: value :: parts, h => exact congrArg (key :: value :: ·) (ih (Nat.succ.inj (Nat.succ.inj h)))

/-- What was put in the place of the children are the children from then on. -/
theorem Expr.children_withChildren {e : Expr} {results : List Expr} (h : results.length = e.children.length) :
    (e.withChildren results).children = results := by
  cases e with
  | ident | int | str | bool | macroLit => exact (List.length_eq_zero_iff.mp h).symm
  | unary =>
    match results, h with
    | [_], _ => rfl
  | binary | index =>
    match results, h with
    | [_, _], _ => rfl
  | cond span condition consequence alternative =>
    match results, h with
    | condition' :: rest, h =>
      have hrest : rest.length = consequence.statements.length + (elseValues alternative).length := by
        rw [← consequence.length_values, ← List.length_append]
        exact Nat.succ.inj h
      obtain ⟨values, more, rfl, hvalues⟩ : ∃ values more, rest = values ++ more ∧
          values.length = consequence.statements.length :=
        ⟨_, _, (List.take_append_drop consequence.statements.length rest).symm, List.length_take_of_le (by omega)⟩
      have hmore : more.length = (elseValues alternative).length := by
        rw [List.length_append] at hrest
        omega
      rw [withChildren_cond hvalues, children, Block.values_withValues hvalues, elseValues_withValues hmore]
  | fn span params body => exact Block.values_withValues (h.trans body.length_values)
  | call =>
    match results, h with
    | _ :: _, _ => rfl
  | array => rfl
  | hash => exact unpaired_paired h

/-! ### Descending to children -/

theorem Stmt.sizeOf_value_lt (s : Stmt) : sizeOf s.value < sizeOf s := by
  cases s with
  | bind =>
    simp only [value, bind.sizeOf_spec]
    omega
  | ret =>
    simp only [value, ret.sizeOf_spec]
    omega
  | expr =>
    simp only [value, expr.sizeOf_spec]
    omega

theorem Block.sizeOf_lt_of_mem_values {b : Block} {e : Expr} (h : e ∈ b.values) : sizeOf e < sizeOf b := by
  obtain ⟨span, ss⟩ := b
  obtain ⟨s, hs, rfl⟩ := List.mem_map.mp h
  have hmem : sizeOf s < sizeOf ss := List.sizeOf_lt_of_mem hs
  have hvalue := s.sizeOf_value_lt
  simp only [mk.sizeOf_spec]
  omega

theorem sizeOf_lt_of_mem_unpaired {pairs : List (Expr × Expr)} {e : Expr} (h : e ∈ unpaired pairs) :
    sizeOf e < sizeOf pairs := by
  obtain ⟨⟨key, value⟩, hpair, he⟩ := List.mem_flatMap.mp h
  have hmem : sizeOf (key, value) < sizeOf pairs := List.sizeOf_lt_of_mem hpair
  rw [Prod.mk.sizeOf_spec] at hmem
  simp only [List.mem_cons, List.not_mem_nil, or_false] at he
  rcases he with rfl | rfl
  all_goals omega

theorem Expr.sizeOf_lt_of_mem_children {e child : Expr} (h : child ∈ e.children) : sizeOf child < sizeOf e := by
  cases e with
  | ident | int | str | bool | macroLit => exact nomatch h
  | unary span op right =>
    obtain rfl := List.mem_singleton.mp h
    simp only [unary.sizeOf_spec]
    omega
  | binary span op left right =>
    simp only [children, List.mem_cons, List.not_mem_nil, or_false] at h
    simp only [binary.sizeOf_spec]
    rcases h with rfl | rfl
    all_goals omega
  | index span left i =>
    simp only [children, List.mem_cons, List.not_mem_nil, or_false] at h
    simp only [index.sizeOf_spec]
    rcases h with rfl | rfl
    all_goals omega
  | cond span condition consequence alternative =>
    simp only [children, List.mem_cons, List.mem_append] at h
    simp only [cond.sizeOf_spec]
    rcases h with rfl | h | h
    · omega
    · have hlt := consequence.sizeOf_lt_of_mem_values h
      omega
    · cases alternative with
      | none => exact nomatch h
      | some block =>
        have hlt := block.sizeOf_lt_of_mem_values h
        simp only [Option.some.sizeOf_spec]
        omega
  | fn span params body =>
    have hlt := body.sizeOf_lt_of_mem_values h
    simp only [fn.sizeOf_spec]
    omega
  | call span callee args =>
    simp only [call.sizeOf_spec]
    rcases List.mem_cons.mp h with rfl | h
    · omega
    · have hlt : sizeOf child < sizeOf args := List.sizeOf_lt_of_mem h
      omega
  | array span elements =>
    have hlt : sizeOf child < sizeOf elements := List.sizeOf_lt_of_mem h
    simp only [array.sizeOf_spec]
    omega
  | hash span pairs =>
    have hlt := sizeOf_lt_of_mem_unpaired h
    simp only [hash.sizeOf_spec]
    omega

/-- What holds of an expression as soon as it holds of its children holds of all expressions. -/
theorem Expr.of_children {P : Expr → Prop} (h : ∀ e : Expr, (∀ child ∈ e.children, P child) → P e) (e : Expr) : P e :=
  h e fun child _ => of_children h child
termination_by sizeOf e
decreasing_by exact sizeOf_lt_of_mem_children ‹_›

end Simian
