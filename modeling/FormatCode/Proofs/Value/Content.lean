import FormatCode.Proofs.Number.Order
import FormatCode.Proofs.Outcome
import FormatCode.Value.Order

/-!
# What equality looks at in a value

Numbers are equal if they have the same value, whatever their kind, and a truth value is a number.
So the content of a value leaves out the kind of each number in it. Two values that hold no NaN are
equal if they have the same content, which makes equality an equivalence that is never a fault.

## Main definitions

* `Content` — what equality looks at.
* `Value.HasContent`, `Value.content` — the values that have a content, and the content.

## Main statements

* `Value.tells_equal` — values are equal if they have the same content.
-/

namespace FormatCode

/-- What equality looks at in a value: numbers without their kind, texts, and the members of tuples
and nodes. -/
inductive Content
  | null
  | number (value : WithBot (WithTop ℚ))
  | text (s : String)
  | tuple (members : List Content)
  | node (kind : NodeKind) (fields : List Content)

namespace Value

mutual

/-- Whether a value has a content: it is missing, a truth value, a number that is no NaN, a text, a
tuple of such values, or a node with such a value for each field of its kind. -/
def HasContent : Value → Prop
  | null | bool _ | int _ | text _ => True
  | float x => ¬ x.IsNan
  | decimal d => ¬ d.IsNan
  | tuple items => HaveContent items
  | node kind fields => fields.length = kind.fieldNames.length ∧ HaveContent fields
  | fraction .. | complex .. | bytes _ | mapping | list _ => False

def HaveContent : List Value → Prop
  | [] => True
  | v :: vs => HasContent v ∧ HaveContent vs

end

/-- A value as a number that has a content. A truth value is one or zero. -/
def number? : Value → Option Number
  | bool b => some (.int (if b then 1 else 0))
  | int i => some (.int i)
  | float x => some (.float x)
  | decimal d => some (.decimal d)
  | _ => none

mutual

def content : Value → Content
  | bool b => .number (Number.int (if b then 1 else 0)).extended
  | int i => .number (Number.int i).extended
  | float x => .number (Number.float x).extended
  | decimal d => .number (Number.decimal d).extended
  | text s => .text s
  | tuple items => .tuple (contents items)
  | node kind fields => .node kind (contents fields)
  | _ => .null

def contents : List Value → List Content
  | [] => []
  | v :: vs => content v :: contents vs

end

variable {x y : Value} {n m : Number}

lemma haveContent_iff {vs : List Value} : HaveContent vs ↔ ∀ v ∈ vs, v.HasContent := by
  induction vs with
  | nil => simp [HaveContent]
  | cons v vs ih => rw [HaveContent, List.forall_mem_cons, ih]

lemma contents_eq_map (vs : List Value) : contents vs = vs.map content := by
  induction vs with
  | nil => rfl
  | cons v vs ih => rw [contents, List.map_cons, ih]

/-! ## Numbers -/

/-- Two numbers of which neither is a NaN are equal if they have the same value. -/
lemma tells_compare (hn : ¬ n.IsNan) (hm : ¬ m.IsNan) :
    Tells (n.operand.compare .equal m.operand) (n.extended = m.extended) := by
  obtain ⟨o, ho⟩ := Operand.exists_order? (mt Number.isNan_operand.mp hn)
    (mt Number.isNan_operand.mp hm)
  refine ⟨Comparison.equal.holds o, by rw [Operand.compare, ho], ?_⟩
  exact Comparison.holds_iff_relates (Number.compares_of_order? ho) .equal

lemma equal_of_number? (hx : x.number? = some n) (hy : y.number? = some m) :
    x.equal y = n.operand.compare .equal m.operand := by
  cases x <;> cases hx <;> cases y <;> cases hy <;> rfl

lemma content_of_number? (hx : x.number? = some n) : x.content = .number n.extended := by
  cases x <;> cases hx <;> rfl

lemma not_isNan_of_number? (h : x.HasContent) (hx : x.number? = some n) : ¬ n.IsNan := by
  cases x <;> cases hx <;> first | exact h | exact id

/-- A number is compared with every value by its content, on either side. -/
lemma tells_equal_number (hx : x.number? = some n) (h : x.HasContent) (h' : y.HasContent) :
    Tells (x.equal y) (x.content = y.content) ∧ Tells (y.equal x) (y.content = x.content) := by
  cases hy : y.number? with
  | some m =>
    have hn := not_isNan_of_number? h hx
    have hm := not_isNan_of_number? h' hy
    rw [equal_of_number? hx hy, equal_of_number? hy hx, content_of_number? hx,
      content_of_number? hy]
    exact ⟨(tells_compare hn hm).congr (by simp), (tells_compare hm hn).congr (by simp)⟩
  | none =>
    cases x <;> cases hx <;> cases y <;> cases hy <;>
      first | exact h'.elim | exact ⟨.of_false nofun, .of_false nofun⟩

/-! ## Values -/

mutual

/-- Two values are equal if they have the same content. -/
theorem tells_equal : ∀ {x y : Value}, x.HasContent → y.HasContent →
    Tells (x.equal y) (x.content = y.content)
  | .tuple xs, .tuple ys, h, h' =>
    (tells_equalMembers xs ys h h').congr (by simp [content])
  | .node k fs, .node l gs, h, h' =>
    (tells_equalMembers fs gs h.2 h'.2).ite.congr (by simp [content])
  | .null, .null, _, _ => .of_true rfl
  | .text s, .text t, _, _ => ⟨s == t, rfl, by simp [content]⟩
  | .bool _, _, h, h' | .int _, _, h, h' | .float _, _, h, h' | .decimal _, _, h, h' =>
    (tells_equal_number rfl h h').1
  | _, .bool _, h, h' | _, .int _, h, h' | _, .float _, h, h' | _, .decimal _, h, h' =>
    (tells_equal_number rfl h' h).2
  | .null, .text _, _, _ | .null, .tuple _, _, _ | .null, .node .., _, _
  | .text _, .null, _, _ | .text _, .tuple _, _, _ | .text _, .node .., _, _
  | .tuple _, .null, _, _ | .tuple _, .text _, _, _ | .tuple _, .node .., _, _
  | .node .., .null, _, _ | .node .., .text _, _, _ | .node .., .tuple _, _, _ => .of_false nofun

/-- Two sequences of values have equal members if they have the same contents. -/
theorem tells_equalMembers : ∀ xs ys : List Value, HaveContent xs → HaveContent ys →
    Tells (equalMembers xs ys) (contents xs = contents ys)
  | [], [], _, _ => .of_true rfl
  | x :: xs, y :: ys, h, h' =>
    ((tells_equal h.1 h'.1).and fun _ => tells_equalMembers xs ys h.2 h'.2).congr
      (by simp [contents])
  | [], _ :: _, _, _ | _ :: _, [], _, _ => .of_false nofun

end

end Value

end FormatCode
