import ScopedNames.Proofs.Session.Opening
import ScopedNames.Proofs.Session.TimeTravel

set_option autoImplicit false

namespace ScopedNames

variable {τ π : Type} [LinearOrder π] {s s' : Session τ π} {now position : Option π} {q : Nat}
variable {d : Import π} {r target : Reference} {enclosing : ScopeId} {number : Nat}

theorem ScopeTable.searchFrom_widened {t : ScopeTable τ π} {names : List String} {via : Via}
    {already : List Nat} {opening : Option Nat} :
    t.searchFrom names now via (Session.widened already opening) =
      (t.searchFrom names now via already).or (t.searchFrom names now via opening.toList) := by
  cases opening with
  | none => exact (Option.or_none ..).symm
  | some i =>
    rw [Session.widened]
    split
    · next known =>
      -- A scope that was searched before and had nothing still has nothing.
      cases missed : t.searchFrom names now via already with
      | some found => rfl
      | none =>
        symm
        rw [Option.none_or, Option.toList_some, searchFrom_eq_none]
        intro j same
        rw [List.mem_singleton.1 same]
        exact searchFrom_eq_none.1 missed i known
    · exact List.findSome?_append

namespace Session

theorem issueImport_eq_ok (issued : s.issueImport target enclosing position = .ok (s', d)) :
    Accepted s (.issueImport target enclosing position) (.imported d) s' := by
  apply Call.perform_eq_ok.1
  apply Operation.bind_of_ok
  rw [issueImport, Operation.outcome] at issued
  cases done : Operation.issueImport target enclosing position s with
  | ok directive after =>
    rw [done] at issued
    cases issued
    rfl
  | error fault after =>
    rw [done] at issued
    cases issued

theorem Invariant.resolveFrom_issue (inv : s.Invariant) {recorded : List (Import π)}
    {last : Option π}
    (inv' : Invariant
      { s with issued := s.issued ++ [d], recorded := recorded, lastPosition := last }) :
    resolveFrom { s with issued := s.issued ++ [d], recorded := recorded, lastPosition := last }
        r q now =
      (s.resolveFrom r q now).or
        (if s.tree.encloses d.scope q && before d.position now then
          s.tree.searchFrom r.names now .imported d.target.toList
        else none) := by
  rw [inv.resolveFrom_eq, inv'.resolveFrom_eq, opened_issue, starts, starts]
  by_cases active : (s.tree.encloses d.scope q && before d.position now) = true
  · rw [if_pos active, if_pos active, ScopeTable.searchFrom_widened, Option.or_assoc]
  · rw [if_neg active, if_neg active, Option.or_none]

end Session

theorem Accepted.resolveFrom_import {c : Call τ π} (accepted : Accepted s c (.imported d) s')
    (inv : s.Invariant) (r : Reference) (q : Nat) (now : Option π) :
    s'.resolveFrom r q now = s.resolveFrom r q now ∨
      s.resolveFrom r q now = none ∧ before d.position now = true ∧
        s.tree.encloses d.scope q = true ∧
        ∃ node i, d.target = some i ∧ s'.resolveFrom r q now = some ⟨node, .imported, i⟩ := by
  have inv' := accepted.invariant inv
  cases accepted
  rw [inv.resolveFrom_issue inv']
  cases old : s.resolveFrom r q now with
  | some found => exact .inl rfl
  | none =>
    rw [Option.none_or]
    split
    · next active =>
      obtain ⟨around, later⟩ := Bool.and_eq_true_iff.1 active
      cases new : s.tree.searchFrom r.names now .imported d.target.toList with
      | none => exact .inl rfl
      | some found =>
        obtain ⟨node, via, i⟩ := found
        obtain ⟨⟨missed, others, split, _⟩, _, rfl⟩ := ScopeTable.searchFrom_eq_some.1 new
        have member : i ∈ d.target.toList := split ▸ List.mem_append_right missed List.mem_cons_self
        exact .inr ⟨rfl, later, around, node, i, Option.mem_toList.1 member, rfl⟩
    · exact .inl rfl

/--
An accepted import changes an answer only where there was none, at a later position and inside
its scope, and then to one that its target leads to.
-/
theorem Reachable.import_fills_gaps (reachable : Reachable number s)
    (issued : s.issueImport target enclosing position = .ok (s', d)) :
    d.position = position ∧ s.tree.idOf d.scope = enclosing ∧
    ∀ (r : Reference) (id : ScopeId) (now : Option π),
      s'.verdictAt r id now = s.verdictAt r id now ∨
        s.verdictAt r id now = .ok none ∧ before d.position now = true ∧
          (∃ q, s.tree.find? id = some q ∧ s.tree.encloses d.scope q = true) ∧
          ∃ i v, d.target = some i ∧ s'.verdictAt r id now = .ok (some v) ∧
            v.via = .imported ∧ v.start = s.tree.idOf i := by
  have accepted := Session.issueImport_eq_ok issued
  have inv := reachable.invariant
  refine ⟨by cases accepted; simp_all, by cases accepted; simp_all, ?_⟩
  intro r id now
  have tree : s'.tree = s.tree := by cases accepted; rfl
  by_cases known : s.tree.Owns id
  · obtain ⟨q, rfl⟩ := known
    have kept := accepted.keeps
    have inside := Nat.lt_of_lt_of_le q.isLt kept.scopes.size_le
    have before := Session.verdictAt_idOf r q.isLt now
    have after := Session.verdictAt_idOf r inside now
    rw [kept.idOf_eq] at after
    rw [before, after]
    rcases accepted.resolveFrom_import inv r q now with same |
      ⟨none, later, around, node, i, target, found⟩
    · exact .inl (by rw [same, kept.verdict_eq])
    · exact .inr ⟨by rw [none]; rfl, later, ⟨q, ScopeTree.find?_idOf, around⟩, i,
        s'.verdict ⟨node, .imported, i⟩, target, by rw [found]; rfl, rfl, kept.idOf_eq i⟩
  · have foreign : ¬ s'.tree.Owns id := by rw [tree]; exact known
    exact .inl (by rw [Session.verdictAt_unknown known, Session.verdictAt_unknown foreign])

namespace Session

def nested : Session Nat Int :=
  (Call.declareScope (.text "Inner") ⟨0, 1⟩ none (some 2) false none).perform.after
    ((Call.declareScope (.text "Outer") ⟨0, 0⟩ (some 7) (some 1) false none).perform.after (new 0))

end Session

-- From the root `Inner` leads nowhere until the members of `Outer` are opened there.
theorem Reachable.import_fills_gaps_of_member :
    Reachable 0 Session.nested ∧ ∃ (s' : Session Nat Int) (d : Import Int),
      Session.nested.issueImport Session.outerPath ⟨0, 0⟩ (some 3) = .ok (s', d) ∧
      Session.nested.verdictAt Session.innerName ⟨0, 0⟩ (some 4) = .ok none ∧
      ∃ i v, d.target = some i ∧ s'.verdictAt Session.innerName ⟨0, 0⟩ (some 4) = .ok (some v) ∧
        v.via = .imported ∧ v.start = Session.nested.tree.idOf i := by
  have reachable : Reachable 0 Session.nested := .call (.call .new _) _
  have issued : Session.nested.issueImport Session.outerPath ⟨0, 0⟩ (some 3) = .ok (_, _) := rfl
  refine ⟨reachable, _, _, issued, ?_⟩
  rcases (reachable.import_fills_gaps issued).2.2 Session.innerName ⟨0, 0⟩ (some 4) with
    same | ⟨missed, _, _, filled⟩
  · have missed : Session.nested.verdictAt Session.innerName ⟨0, 0⟩ (some 4) = .ok none := by cbv
    rw [missed] at same
    have found := congrArg (fun answer => answer.toOption.map (·.isSome)) same
    have both : some true = some false := by
      refine Eq.trans ?_ found
      cbv
    cases both
  · exact ⟨missed, filled⟩

end ScopedNames
