import Simian.Proofs.Eval.Context
import Simian.Proofs.Tree.Transform

/-!
# Positions in a program

A position is a hole in a program, anywhere but in the literal of a macro: in a statement, and there under any number of layers, of which the literals of functions are some. A transformation comes to the hole when it is through with all that stands before it, then transforms the expression in the hole, and goes on with all that stands behind and around it. The last part takes what has become of the expression as it is, and hands it to the layers around it without looking for expressions in it.
-/

namespace Simian

/-- A layer of syntax around a hole. The body of a function is the only one that is not evaluated with what is around it. -/
inductive Layer where
  | inFrame (frame : Frame)
  | inBody (span : Span) (params : List Binder) (inner : Span) (place : Place)

/-- A hole in a program; the layers around it within its statement, the outermost first. -/
structure Position where
  span : Span
  place : Place
  layers : List Layer

def Layer.plug : Layer → Expr → Expr
  | inFrame frame, e => frame.plug e
  | inBody span params inner place, e => .fn span params (.mk inner (place.plug e))

def Layer.plugAll (layers : List Layer) (e : Expr) : Expr :=
  layers.foldr plug e

def Position.plug (position : Position) (e : Expr) : Program :=
  ⟨position.span, position.place.plug (Layer.plugAll position.layers e)⟩

/-! ### On the way to the hole and back -/

section Transform

variable {m : Type → Type} [Monad m] (f : Expr → m Expr)

/-- Transforms the statements before the hole. -/
def Place.enterM (place : Place) : m Place := do
  let before ← transformStatementsM f place.before
  return { place with before }

/-- Transforms the statements behind the hole, and puts the expression into it. -/
def Place.leaveM (place : Place) (e : Expr) : m (List Stmt) := do
  let after ← transformStatementsM f place.after
  return place.before ++ place.slot.plug e :: after

/-- Transforms what is before the hole. -/
def Frame.enterM : Frame → m Frame
  | inRight span op left => do
    let left ← left.transformM f
    return inRight span op left
  | inIndex span left => do
    let left ← left.transformM f
    return inIndex span left
  | inArgument span callee before after => do
    let callee ← callee.transformM f
    let before ← transformListM f before
    return inArgument span callee before after
  | inElement span before after => do
    let before ← transformListM f before
    return inElement span before after
  | inKey span before value after => do
    let before ← transformPairsM f before
    return inKey span before value after
  | inValue span before key after => do
    let before ← transformPairsM f before
    let key ← key.transformM f
    return inValue span before key after
  | inConsequence span condition inner place alternative => do
    let condition ← condition.transformM f
    let place ← place.enterM f
    return inConsequence span condition inner place alternative
  | inAlternative span condition consequence inner place => do
    let condition ← condition.transformM f
    let consequence ← consequence.transformM f
    let place ← place.enterM f
    return inAlternative span condition consequence inner place
  | frame => pure frame

/-- Transforms what is behind the hole, and hands over the layer with the expression in it. -/
def Frame.leaveM : Frame → Expr → m Expr
  | inOperand span op, e => f (.unary span op e)
  | inLeft span op right, e => do
    let right ← right.transformM f
    f (.binary span op e right)
  | inRight span op left, e => f (.binary span op left e)
  | inIndexed span index, e => do
    let index ← index.transformM f
    f (.index span e index)
  | inIndex span left, e => f (.index span left e)
  | inCallee span args, e => do
    let args ← transformListM f args
    f (.call span e args)
  | inArgument span callee before after, e => do
    let after ← transformListM f after
    f (.call span callee (before ++ e :: after))
  | inElement span before after, e => do
    let after ← transformListM f after
    f (.array span (before ++ e :: after))
  | inKey span before value after, e => do
    let value ← value.transformM f
    let after ← transformPairsM f after
    f (.hash span (before ++ (e, value) :: after))
  | inValue span before key after, e => do
    let after ← transformPairsM f after
    f (.hash span (before ++ (key, e) :: after))
  | inCondition span consequence alternative, e => do
    let consequence ← consequence.transformM f
    let alternative ← transformElseM f alternative
    f (.cond span e consequence alternative)
  | inConsequence span condition inner place alternative, e => do
    let ss ← place.leaveM f e
    let alternative ← transformElseM f alternative
    f (.cond span condition (.mk inner ss) alternative)
  | inAlternative span condition consequence inner place, e => do
    let ss ← place.leaveM f e
    f (.cond span condition consequence (some (.mk inner ss)))

def Layer.enterM : Layer → m Layer
  | inFrame frame => do
    let frame ← frame.enterM f
    return inFrame frame
  | inBody span params inner place => do
    let place ← place.enterM f
    return inBody span params inner place

def Layer.leaveM : Layer → Expr → m Expr
  | inFrame frame, e => frame.leaveM f e
  | inBody span params inner place, e => do
    let ss ← place.leaveM f e
    f (.fn span params (.mk inner ss))

/-- Transforms what is before the hole, from the outermost layer inwards. -/
def Layer.enterAllM : List Layer → m (List Layer)
  | [] => pure []
  | layer :: layers => do
    let layer ← layer.enterM f
    let layers ← enterAllM layers
    return layer :: layers

/-- Transforms what is behind the hole, from the innermost layer outwards. -/
def Layer.leaveAllM : List Layer → Expr → m Expr
  | [], e => pure e
  | layer :: layers, e => do
    let e ← leaveAllM layers e
    layer.leaveM f e

/-- Transforms what is before the hole. -/
def Position.enterM (position : Position) : m Position := do
  let place ← position.place.enterM f
  let layers ← Layer.enterAllM f position.layers
  return { position with place, layers }

/-- Transforms what is behind the hole and around it, and puts the expression into it as it is. -/
def Position.leaveM (position : Position) (e : Expr) : m Program := do
  let e ← Layer.leaveAllM f position.layers e
  let statements ← position.place.leaveM f e
  return ⟨position.span, statements⟩

variable [LawfulMonad m]

theorem transformListM_append (es es' : List Expr) :
    transformListM f (es ++ es') = do
      let es ← transformListM f es
      let es' ← transformListM f es'
      return es ++ es' := by
  induction es with
  | nil => simp [transformListM]
  | cons e es ih => simp [transformListM, ih]

theorem transformPairsM_append (ps ps' : List (Expr × Expr)) :
    transformPairsM f (ps ++ ps') = do
      let ps ← transformPairsM f ps
      let ps' ← transformPairsM f ps'
      return ps ++ ps' := by
  induction ps with
  | nil => simp [transformPairsM]
  | cons p ps ih => simp [transformPairsM, ih]

theorem transformStatementsM_append (ss ss' : List Stmt) :
    transformStatementsM f (ss ++ ss') = do
      let ss ← transformStatementsM f ss
      let ss' ← transformStatementsM f ss'
      return ss ++ ss' := by
  induction ss with
  | nil => simp [transformStatementsM]
  | cons s ss ih => simp [transformStatementsM, ih]

theorem Slot.transformM_plug (slot : Slot) (e : Expr) : (slot.plug e).transformM f = slot.plug <$> e.transformM f := by
  cases slot <;> simp [Slot.plug, Stmt.transformM] <;> rfl

theorem Place.transformM_plug (place : Place) (e : Expr) :
    transformStatementsM f (place.plug e) =
      place.enterM f >>= fun place => e.transformM f >>= fun e => place.leaveM f e := by
  simp [Place.plug, Place.enterM, Place.leaveM, transformStatementsM_append, transformStatementsM, Slot.transformM_plug]

theorem Frame.transformM_plug (frame : Frame) (e : Expr) :
    (frame.plug e).transformM f =
      frame.enterM f >>= fun frame => e.transformM f >>= fun e => frame.leaveM f e := by
  cases frame <;>
    simp [Frame.plug, Frame.enterM, Frame.leaveM, Expr.transformM, transformListM_append, transformListM,
      transformPairsM_append, transformPairsM, transformElseM, Block.transformM, Place.transformM_plug]

theorem Layer.transformM_plug (layer : Layer) (e : Expr) :
    (layer.plug e).transformM f =
      layer.enterM f >>= fun layer => e.transformM f >>= fun e => layer.leaveM f e := by
  cases layer with
  | inFrame frame => simp [Layer.plug, Layer.enterM, Layer.leaveM, Frame.transformM_plug]
  | inBody => simp [Layer.plug, Layer.enterM, Layer.leaveM, Expr.transformM, Block.transformM, Place.transformM_plug]

theorem Layer.transformM_plugAll (layers : List Layer) (e : Expr) :
    (plugAll layers e).transformM f =
      enterAllM f layers >>= fun layers => e.transformM f >>= fun e => leaveAllM f layers e := by
  induction layers with
  | nil => simp [plugAll, enterAllM, leaveAllM]
  | cons layer layers ih =>
    change (layer.plug (plugAll layers e)).transformM f = _
    simp [Layer.transformM_plug, ih, enterAllM, leaveAllM]

/-- A transformation goes to the hole, transforms what is in it, and goes on from there. -/
theorem Position.transformM_plug (position : Position) (e : Expr) :
    (position.plug e).transformM f =
      position.enterM f >>= fun position => e.transformM f >>= fun e => position.leaveM f e := by
  simp [Position.plug, Program.transformM, Place.transformM_plug, Layer.transformM_plugAll, Position.enterM,
    Position.leaveM]

end Transform

/-! ### What the way to the hole does to the store -/

section Effect

variable {ε : Type} {own : ScopeId} {f : Expr → EStateM ε Store Expr} (hf : Respects .any own f)
include hf

theorem Place.ensures_enterM (place : Place) : Ensures .any own (fun _ => True) (place.enterM f) :=
  (ensures_transformStatementsM hf place.before (withinStatements_any _)).bind fun _ _ => .pure trivial

theorem Frame.ensures_enterM (frame : Frame) : Ensures .any own (fun _ => True) (frame.enterM f) := by
  have hexpr := fun e : Expr => e.ensures_transformM hf e.within_any
  have hlist := fun es => ensures_transformListM hf es (withinList_any es)
  have hpairs := fun ps => ensures_transformPairsM hf ps (withinPairs_any ps)
  cases frame with
  | inOperand | inLeft | inIndexed | inCallee | inCondition => exact .pure trivial
  | inRight _ _ left | inIndex _ left => exact (hexpr left).bind fun _ _ => .pure trivial
  | inArgument _ callee before => exact (hexpr callee).bind fun _ _ => (hlist before).bind fun _ _ => .pure trivial
  | inElement _ before => exact (hlist before).bind fun _ _ => .pure trivial
  | inKey _ before => exact (hpairs before).bind fun _ _ => .pure trivial
  | inValue _ before key => exact (hpairs before).bind fun _ _ => (hexpr key).bind fun _ _ => .pure trivial
  | inConsequence _ condition _ place =>
    exact (hexpr condition).bind fun _ _ => (place.ensures_enterM hf).bind fun _ _ => .pure trivial
  | inAlternative _ condition consequence _ place =>
    apply (hexpr condition).bind
    intro _ _
    apply (consequence.ensures_transformM hf consequence.within_any).bind
    intro _ _
    exact (place.ensures_enterM hf).bind fun _ _ => .pure trivial

theorem Layer.ensures_enterAllM (layers : List Layer) : Ensures .any own (fun _ => True) (enterAllM f layers) := by
  induction layers with
  | nil => exact .pure trivial
  | cons layer layers ih =>
    have hlayer : Ensures .any own (fun _ => True) (layer.enterM f) := by
      cases layer with
      | inFrame frame => exact (frame.ensures_enterM hf).bind fun _ _ => .pure trivial
      | inBody _ _ _ place => exact (place.ensures_enterM hf).bind fun _ _ => .pure trivial
    exact hlayer.bind fun _ _ => ih.bind fun _ _ => .pure trivial

theorem Position.ensures_enterM (position : Position) : Ensures .any own (fun _ => True) (position.enterM f) :=
  (position.place.ensures_enterM hf).bind fun _ _ =>
    (Layer.ensures_enterAllM hf position.layers).bind fun _ _ => .pure trivial

end Effect

end Simian
