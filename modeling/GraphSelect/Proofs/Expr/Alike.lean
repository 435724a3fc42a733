import GraphSelect.Proofs.Decimal.Zeros
import GraphSelect.Proofs.Expr.Meaning

/-!
# Expressions that are equal as numbers

An alias may be given again to an expression that is equal to its own, where decimals are compared
as numbers. That leaves one way for the two to differ: the zeros are equal as numbers, and each has
its own sign. What the expressions mean is then the same up to the sign of a zero, and since a
constant is written with its sign, the difference shows in the steps.
-/

set_option autoImplicit false

namespace GraphSelect

open Sql

/-- Two meanings are the same, but perhaps for the sign of a zero. -/
inductive Meaning.Alike : Meaning → Meaning → Prop where
  | same (m : Meaning) : Alike m m
  | constant {x y : Float} : Decimal.OppositeZeros x y →
      Alike (.atom (.constant (.decimal x))) (.atom (.constant (.decimal y)))
  | aggregate {f : Aggregate} {x y : Float} : Decimal.OppositeZeros x y →
      Alike (.aggregate f (some (.constant (.decimal x))))
        (.aggregate f (some (.constant (.decimal y))))

namespace Meaning.Alike

variable {m m' : Meaning}

theorem isAggregate_eq (h : m.Alike m') : m.isAggregate = m'.isAggregate := by
  cases h <;> rfl

/-- The sign of a zero shows. -/
theorem eq_of_fragment (h : m.Alike m') (heq : m.fragment .bucket = m'.fragment .bucket) :
    m = m' := by
  cases h with
  | same => rfl
  | constant hzeros =>
    simp only [Meaning.fragment, Atom.fragment, Scalar.ofLiteral, List.cons.injEq,
      Step.constant.injEq, Scalar.double.injEq, and_true] at heq
    exact absurd heq hzeros.ne
  | aggregate hzeros =>
    simp only [Meaning.fragment, Atom.fragment, Scalar.ofLiteral, List.cons.injEq,
      List.cons_append, Step.constant.injEq, Scalar.double.injEq, and_true, true_and] at heq
    exact absurd heq hzeros.ne

end Meaning.Alike

theorem Sql.Literal.eq_or_zeros_of_same {l l' : Literal} (h : l.same l' = true) :
    l = l' ∨ ∃ x y, Decimal.OppositeZeros x y ∧ l = .decimal x ∧ l' = .decimal y := by
  cases l with
  | decimal x =>
    cases l' with
    | decimal y =>
      rcases Decimal.eq_or_oppositeZeros h with rfl | hzeros
      · exact .inl rfl
      · exact .inr ⟨x, y, hzeros, rfl, rfl⟩
    | _ => cases h
  | null =>
    cases l' with
    | null => exact .inl rfl
    | _ => cases h
  | boolean b =>
    cases l' with
    | boolean c => exact .inl (congrArg _ (eq_of_beq h))
    | _ => cases h
  | integer i =>
    cases l' with
    | integer j => exact .inl (congrArg _ (eq_of_beq h))
    | _ => cases h
  | string t =>
    cases l' with
    | string u => exact .inl (congrArg _ (eq_of_beq h))
    | _ => cases h

namespace Sql.Node

theorem eq_of_same_identifier {id : Identifier} {n : Node}
    (h : (Node.identifier id).same n = true) : n = .identifier id := by
  cases n with
  | identifier other =>
    rw [same, beq_iff_eq] at h
    rw [h]
  | _ => simp [same] at h

theorem eq_of_same_literal {l : Literal} {n : Node} (h : (Node.literal l).same n = true) :
    ∃ l', n = .literal l' ∧ l.same l' = true := by
  cases n with
  | literal l' => exact ⟨l', rfl, by rwa [same] at h⟩
  | _ => simp [same] at h

theorem forall₂_of_sameAll {xs ys : List Node} (h : sameAll xs ys = true) :
    List.Forall₂ (fun x y => x.same y = true) xs ys := by
  induction xs generalizing ys with
  | nil =>
    cases ys with
    | nil => exact .nil
    | cons y ys => simp [sameAll] at h
  | cons x xs ih =>
    cases ys with
    | nil => simp [sameAll] at h
    | cons y ys =>
      rw [sameAll, Bool.and_eq_true] at h
      exact .cons h.1 (ih h.2)

theorem isStar_eq_of_same {n n' : Node} (h : n.same n' = true) : n.isStar = n'.isStar := by
  cases n with
  | identifier id => rw [eq_of_same_identifier h]
  | literal l =>
    obtain ⟨_, rfl, -⟩ := eq_of_same_literal h
    rfl
  | call op operands =>
    cases n' with
    | call op' operands' => rfl
    | _ => simp [same] at h

theorem eq_of_same_call {op : Operator} {operands : List Node} {n : Node}
    (h : (Node.call op operands).same n = true) :
    ∃ operands', n = .call op operands' ∧
      List.Forall₂ (fun x y => x.same y = true) operands operands' := by
  cases n with
  | call op' operands' =>
    rw [same, Bool.and_eq_true, beq_iff_eq] at h
    exact ⟨operands', by rw [h.1], forall₂_of_sameAll h.2⟩
  | _ => simp [same] at h

end Sql.Node

/-- Expressions that are equal as numbers have the same meaning, but perhaps for the sign of a
zero. -/
theorem Means.alike {r : Registry} {table : TableId} {n n' : Node} {m m' : Meaning}
    (h : Means r table n m) (h' : Means r table n' m') (hsame : n.same n' = true) :
    m.Alike m' := by
  induction h generalizing n' m' with
  | column hc =>
    cases Node.eq_of_same_identifier hsame
    cases (Means.column hc).unique h'
    exact .same _
  | named ha hm _ =>
    cases Node.eq_of_same_identifier hsame
    cases (Means.named ha hm).unique h'
    exact .same _
  | literal l =>
    obtain ⟨l', rfl, hliteral⟩ := Node.eq_of_same_literal hsame
    cases h'
    rcases Literal.eq_or_zeros_of_same hliteral with rfl | ⟨x, y, hzeros, rfl, rfl⟩
    · exact .same _
    · exact .constant hzeros
  | naming hop hm ih =>
    obtain ⟨_, rfl, hoperands⟩ := Node.eq_of_same_call hsame
    rcases hoperands with _ | ⟨hinner, _ | ⟨hname, _ | _⟩⟩
    cases Node.eq_of_same_identifier hname
    cases h' with
    | naming _ hm' => exact ih hm' hinner
  | desc hop hm ih =>
    obtain ⟨_, rfl, hoperands⟩ := Node.eq_of_same_call hsame
    rcases hoperands with _ | ⟨hoperand, _ | _⟩
    cases h' with
    | desc _ hm' => exact ih hm' hoperand
    | star hop' _ => cases hop.symm.trans hop'
    | aggregate hop' _ _ => cases hop.symm.trans hop'
  | countAll hop =>
    obtain ⟨_, rfl, hoperands⟩ := Node.eq_of_same_call hsame
    cases hoperands
    cases h'
    exact .same _
  | star hop hs =>
    obtain ⟨_, rfl, hoperands⟩ := Node.eq_of_same_call hsame
    rcases hoperands with _ | ⟨hoperand, _ | _⟩
    cases Node.eq_of_same_identifier hoperand
    cases (Means.star hop hs).unique h'
    exact .same _
  | aggregate hop hs hm ih =>
    obtain ⟨_, rfl, hoperands⟩ := Node.eq_of_same_call hsame
    rcases hoperands with _ | ⟨hoperand, _ | _⟩
    cases h' with
    | desc hop' _ => cases hop.symm.trans hop'
    | star _ hs' => cases hs.symm.trans ((Node.isStar_eq_of_same hoperand).trans hs')
    | aggregate hop' hs' hm' =>
      cases hop.symm.trans hop'
      cases ih hm' hoperand with
      | same => exact .same _
      | constant hzeros => exact .aggregate hzeros

end GraphSelect
