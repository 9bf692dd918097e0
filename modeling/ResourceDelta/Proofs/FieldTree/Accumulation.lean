import Mathlib
import ResourceDelta.Proofs.FieldTree.Attaching

/-!
# What a run of override calls leaves behind

Overrides are attached call by call, and any call may be rejected.  The state after a run depends on
the accepted calls alone: `unitedFlags` collects what they say, and a run from a built tree is
always in the state of what it has accepted so far.

* `FieldTree.accepted` — the calls of a run that are accepted.
* `AreConsistent` — no two calls ignore a field and mark it as secret.
* `Outline.attach_united` — a call is accepted if its path is known and the calls stay consistent.
* `Outline.attachEach_united` — hence the state after a run.
* `Outline.accepted_eq_self_iff` — hence which runs are accepted in full; their order does not
  matter.
* `FieldTree.answersCall` — what a call does to a tree, whatever was said about its fields before.
* `build_accumulates_overrides` — all of this for every tree that is built from definitions.
-/

set_option autoImplicit false

namespace ResourceDelta

/-! ## Runs -/

/-- The calls of a run that are accepted, in their order. -/
def FieldTree.accepted (t : FieldTree) :
    List (FieldPath × FieldFlags) → List (FieldPath × FieldFlags)
  | [] => []
  | call :: calls =>
    match t.attachOverride call.1 call.2 with
    | (.ok (), t') => call :: t'.accepted calls
    | (.error _, t') => t'.accepted calls

theorem FieldTree.accepted_length_le (t : FieldTree) (calls : List (FieldPath × FieldFlags)) :
    (t.accepted calls).length ≤ calls.length := by
  induction calls generalizing t with
  | nil => exact Nat.le_refl 0
  | cons call calls ih =>
    rw [accepted]
    split
    · rw [List.length_cons, List.length_cons]
      exact Nat.succ_le_succ (ih _)
    · exact Nat.le_succ_of_le (ih _)

/-- Whether some call sets a flag at a path. -/
def setsFlag (calls : List (FieldPath × FieldFlags)) (path : FieldPath)
    (flag : FieldFlags → Bool) : Bool :=
  calls.any fun c => decide (c.1 = path) && flag c.2

/-- The flags that some calls set at a path between them, if one of them is about it. -/
def unitedFlags (calls : List (FieldPath × FieldFlags)) (path : FieldPath) : Option FieldFlags :=
  if path ∈ calls.map Prod.fst then
    some ⟨setsFlag calls path FieldFlags.ignore, setsFlag calls path FieldFlags.secret⟩
  else none

/-- No field is both ignored and marked as secret by the calls. -/
def AreConsistent (calls : List (FieldPath × FieldFlags)) : Prop :=
  ∀ path, ¬ (setsFlag calls path FieldFlags.ignore = true ∧
    setsFlag calls path FieldFlags.secret = true)

section

variable {calls calls' done more : List (FieldPath × FieldFlags)} {path : FieldPath}
  {new : FieldFlags} {flag : FieldFlags → Bool}

theorem setsFlag_iff :
    setsFlag calls path flag = true ↔ ∃ c ∈ calls, c.1 = path ∧ flag c.2 = true := by
  unfold setsFlag
  simp only [List.any_eq_true, Bool.and_eq_true, decide_eq_true_eq]

theorem setsFlag_concat (q : FieldPath) :
    setsFlag (done ++ [(path, new)]) q flag =
      (setsFlag done q flag || (decide (path = q) && flag new)) := by
  unfold setsFlag
  rw [List.any_append, List.any_cons, List.any_nil, Bool.or_false]

theorem setsFlag_of_not_mem (h : path ∉ calls.map Prod.fst) : setsFlag calls path flag = false := by
  rw [← Bool.not_eq_true, setsFlag_iff]
  rintro ⟨c, hc, rfl, -⟩
  exact h (List.mem_map_of_mem hc)

theorem unitedFlags_getD :
    (unitedFlags calls path).getD .none =
      ⟨setsFlag calls path FieldFlags.ignore, setsFlag calls path FieldFlags.secret⟩ := by
  unfold unitedFlags
  split
  · rfl
  · rename_i h
    rw [setsFlag_of_not_mem h, setsFlag_of_not_mem h]
    rfl

theorem unitedFlags_eq_none_iff : unitedFlags calls path = none ↔ ∀ c ∈ calls, c.1 ≠ path := by
  unfold unitedFlags
  rw [ite_eq_right_iff]
  simp only [List.mem_map, reduceCtorEq, imp_false, not_exists, not_and, ne_eq]

theorem unitedFlags_eq_some {flags : FieldFlags} (h : unitedFlags calls path = some flags) :
    flags = ⟨setsFlag calls path FieldFlags.ignore, setsFlag calls path FieldFlags.secret⟩ := by
  rw [← unitedFlags_getD, h]
  rfl

/-- What calls say between them does not depend on their order. -/
theorem unitedFlags_perm (h : calls.Perm calls') : unitedFlags calls = unitedFlags calls' := by
  funext path
  unfold unitedFlags setsFlag
  simp only [(h.map Prod.fst).mem_iff, h.any_eq]

/-- One more call adds its flags to what has been said about its path. -/
theorem unitedFlags_concat :
    unitedFlags (done ++ [(path, new)]) = addFlags (unitedFlags done) path new := by
  funext q
  unfold addFlags
  by_cases hq : q = path
  · subst hq
    rw [if_pos rfl, unitedFlags_getD, unitedFlags, if_pos (by simp), setsFlag_concat,
      setsFlag_concat]
    simp [FieldFlags.union]
  · have hpq : ¬ path = q := fun h => hq h.symm
    rw [if_neg hq, unitedFlags, setsFlag_concat, setsFlag_concat]
    simp only [List.map_append, List.map_cons, List.map_nil, List.mem_append, List.mem_singleton,
      hq, hpq, or_false, decide_false, Bool.false_and, Bool.or_false]
    rfl

theorem areConsistent_nil : AreConsistent [] := by
  intro path h
  cases h.1

theorem AreConsistent.of_append (h : AreConsistent (calls ++ more)) : AreConsistent calls := by
  intro path hboth
  have hmono : ∀ flag, setsFlag calls path flag = true →
      setsFlag (calls ++ more) path flag = true := by
    intro flag hf
    rw [setsFlag_iff] at hf ⊢
    obtain ⟨c, hc, hcp⟩ := hf
    exact ⟨c, List.mem_append_left _ hc, hcp⟩
  exact h path ⟨hmono _ hboth.1, hmono _ hboth.2⟩

theorem AreConsistent.perm (h : AreConsistent calls) (hp : calls.Perm calls') :
    AreConsistent calls' := by
  intro path
  unfold setsFlag
  rw [← hp.any_eq, ← hp.any_eq]
  exact h path

/-- A call makes a conflict with consistent ones exactly if with it they are consistent no more. -/
theorem isConflict_union_iff (h : AreConsistent done) :
    (((unitedFlags done path).getD .none).union new).isConflict = true ↔
      ¬ AreConsistent (done ++ [(path, new)]) := by
  have hat : (((unitedFlags done path).getD .none).union new).isConflict = true ↔
      setsFlag (done ++ [(path, new)]) path FieldFlags.ignore = true ∧
        setsFlag (done ++ [(path, new)]) path FieldFlags.secret = true := by
    rw [unitedFlags_getD, setsFlag_concat, setsFlag_concat]
    simp [FieldFlags.union, FieldFlags.isConflict]
  rw [hat]
  constructor
  · intro hboth hall
    exact hall path hboth
  · intro hnot
    by_contra hclear
    refine hnot fun q hq => ?_
    -- the call says nothing about other paths
    by_cases hpq : path = q
    · subst hpq
      exact hclear hq
    · simp only [setsFlag_concat, hpq, decide_false, Bool.false_and, Bool.or_false] at hq
      exact h q hq

end

/-! ## The tree of an outline -/

namespace Outline

variable {os : Outline} {done calls : List (FieldPath × FieldFlags)}

/-- **A call is accepted if its path is known and the calls stay consistent**, and the state is then
that of one more call; otherwise it is as before. -/
theorem attach_united (hp : os.IsProper) (hdone : AreConsistent done) (path : FieldPath)
    (new : FieldFlags) :
    (path ∈ os.paths .top ∧ AreConsistent (done ++ [(path, new)]) ∧
      (os.tree (unitedFlags done)).attachOverride path new =
        (.ok (), os.tree (unitedFlags (done ++ [(path, new)])))) ∨
    (¬ (path ∈ os.paths .top ∧ AreConsistent (done ++ [(path, new)])) ∧
      ∃ e, (os.tree (unitedFlags done)).attachOverride path new =
        (.error e, os.tree (unitedFlags done))) := by
  rw [attachOverride_tree hp, unitedFlags_concat]
  by_cases hpath : path ∈ os.paths .top
  · rw [if_pos hpath]
    by_cases hall : AreConsistent (done ++ [(path, new)])
    · rw [if_neg fun hc => (isConflict_union_iff hdone).1 hc hall]
      exact .inl ⟨hpath, hall, rfl⟩
    · rw [if_pos ((isConflict_union_iff hdone).2 hall)]
      exact .inr ⟨fun h => hall h.2, _, rfl⟩
  · rw [if_neg hpath]
    exact .inr ⟨fun h => hpath h.1, _, rfl⟩

/-- **After a run, the state is that of the calls which were accepted**, and these are
consistent. -/
theorem attachEach_united (hp : os.IsProper) (hdone : AreConsistent done) :
    AreConsistent (done ++ (os.tree (unitedFlags done)).accepted calls) ∧
      (os.tree (unitedFlags done)).attachEach calls =
        os.tree (unitedFlags (done ++ (os.tree (unitedFlags done)).accepted calls)) := by
  induction calls generalizing done with
  | nil =>
    rw [FieldTree.accepted, List.append_nil]
    exact ⟨hdone, rfl⟩
  | cons call calls ih =>
    obtain ⟨path, new⟩ := call
    rw [FieldTree.attachEach, List.foldl_cons, FieldTree.accepted]
    rcases attach_united hp hdone path new with ⟨-, hall, hok⟩ | ⟨-, e, he⟩
    · have ih := ih hall
      rw [List.append_assoc, List.singleton_append] at ih
      rw [hok]
      exact ih
    · rw [he]
      exact ih hdone

/-- **A run is accepted in full exactly if all paths are known and the calls are consistent.** -/
theorem accepted_eq_self_iff (hp : os.IsProper) (hdone : AreConsistent done) :
    (os.tree (unitedFlags done)).accepted calls = calls ↔
      (∀ c ∈ calls, c.1 ∈ os.paths .top) ∧ AreConsistent (done ++ calls) := by
  induction calls generalizing done with
  | nil =>
    rw [FieldTree.accepted, List.append_nil]
    simp [hdone]
  | cons call calls ih =>
    obtain ⟨path, new⟩ := call
    rw [FieldTree.accepted, List.forall_mem_cons]
    rcases attach_united hp hdone path new with ⟨hpath, hall, hok⟩ | ⟨hnot, e, he⟩
    · have ih := ih hall
      rw [List.append_assoc, List.singleton_append] at ih
      rw [hok]
      simp only [List.cons.injEq, true_and, ih, hpath]
    · rw [he]
      constructor
      · intro hself
        -- what is accepted of the later calls is not longer than these
        have hself : (os.tree (unitedFlags done)).accepted calls = (path, new) :: calls := hself
        have hlen := (os.tree (unitedFlags done)).accepted_length_le calls
        rw [hself, List.length_cons] at hlen
        omega
      · rintro ⟨⟨hpath, -⟩, hall⟩
        rw [List.append_cons] at hall
        exact absurd ⟨hpath, hall.of_append⟩ hnot

end Outline

/-! ## What a call does -/

/-- What the next call does to a tree. -/
structure FieldTree.AnswersCall (t : FieldTree) (path : FieldPath) (new : FieldFlags) : Prop where
  /-- A call is dangling exactly if no field has its path. -/
  dangling : (t.attachOverride path new).1 = .error (.danglingOverride path) ↔
    ∀ f ∈ t.fields, f.path ≠ path
  /-- It is conflicting exactly if the field with its path would be both ignored and secret. -/
  conflicting : (t.attachOverride path new).1 = .error (.conflictingOverride path) ↔
    ∃ f ∈ t.fields, f.path = path ∧ ((f.flags.getD .none).union new).isConflict = true
  /-- There is no other reason to reject it. -/
  rejected : ∀ e, (t.attachOverride path new).1 = .error e →
    e = .danglingOverride path ∨ e = .conflictingOverride path
  /-- A rejected call leaves the tree behind as it was. -/
  unchanged : ∀ e, (t.attachOverride path new).1 = .error e → (t.attachOverride path new).2 = t
  /-- An accepted call changes what is said about the field with its path, and nothing else. -/
  changed : (t.attachOverride path new).1 = .ok () →
    (t.attachOverride path new).2.roots = t.roots ∧
    ∃ (n : Nat) (f : Field), t.fields[n]? = some f ∧ f.path = path ∧
      (t.attachOverride path new).2.fields[n]? =
        some { f with flags := some ((f.flags.getD .none).union new) } ∧
      ∀ m, m ≠ n → (t.attachOverride path new).2.fields[m]? = t.fields[m]?

/-- Where paths are distinct, flags are set at one field. -/
theorem FieldTree.setFlags_at {t : FieldTree} {path : FieldPath} {n : Nat} {f : Field}
    (hd : (t.fields.toList.map Field.path).Nodup) (hn : t.fields[n]? = some f)
    (hpath : f.path = path) (new : FieldFlags) :
    (t.setFlags path new).fields[n]? = some { f with flags := some new } ∧
      ∀ m, m ≠ n → (t.setFlags path new).fields[m]? = t.fields[m]? := by
  have hget : ∀ m : Nat, (t.setFlags path new).fields[m]? = t.fields[m]?.map fun f : Field =>
      if f.path = path then { f with flags := some new } else f := by
    intro m
    simp [setFlags]
  constructor
  · rw [hget, hn, Option.map_some, if_pos hpath]
  · intro m hm
    rw [hget]
    cases hg : t.fields[m]? with
    | none => rfl
    | some g =>
      have hne : g.path ≠ path := by
        intro hgp
        have hmn : (t.fields.toList.map Field.path)[n]? = (t.fields.toList.map Field.path)[m]? := by
          simp [hn, hg, hpath, hgp]
        have hlt : n < (t.fields.toList.map Field.path).length := by
          simpa using (Array.getElem?_eq_some_iff.1 hn).1
        exact hm ((List.getElem?_inj hlt hd).1 hmn).symm
      rw [Option.map_some, if_neg hne]

namespace FieldTree.AnswersCall

variable {t : FieldTree} {path : FieldPath} {new : FieldFlags} {f : Field}

/-- A call with the path of no field. -/
theorem of_dangling (hattach : t.attachOverride path new = (.error (.danglingOverride path), t))
    (hnone : ∀ f ∈ t.fields, f.path ≠ path) : t.AnswersCall path new where
  dangling := by
    rw [hattach]
    exact iff_of_true rfl hnone
  conflicting := by
    rw [hattach]
    refine iff_of_false (fun h => by cases h) ?_
    rintro ⟨f, hf, hpath, -⟩
    exact hnone f hf hpath
  rejected e he := by
    rw [hattach] at he
    cases he
    exact .inl rfl
  unchanged e he := by rw [hattach]
  changed hok := by
    rw [hattach] at hok
    cases hok

/-- A call that makes a conflict at the field with its path. -/
theorem of_conflicting
    (hattach : t.attachOverride path new = (.error (.conflictingOverride path), t))
    (hf : f ∈ t.fields) (hpath : f.path = path)
    (hc : ((f.flags.getD .none).union new).isConflict = true) : t.AnswersCall path new where
  dangling := by
    rw [hattach]
    exact iff_of_false (fun h => by cases h) fun hnone => hnone f hf hpath
  conflicting := by
    rw [hattach]
    exact iff_of_true rfl ⟨f, hf, hpath, hc⟩
  rejected e he := by
    rw [hattach] at he
    cases he
    exact .inr rfl
  unchanged e he := by rw [hattach]
  changed hok := by
    rw [hattach] at hok
    cases hok

/-- A call that makes no conflict at the field with its path. -/
theorem of_ok (hattach : t.attachOverride path new =
      (.ok (), t.setFlags path ((f.flags.getD .none).union new)))
    (hd : (t.fields.toList.map Field.path).Nodup) (hf : f ∈ t.fields) (hpath : f.path = path)
    (hc : ((f.flags.getD .none).union new).isConflict ≠ true) : t.AnswersCall path new where
  dangling := by
    rw [hattach]
    exact iff_of_false (fun h => by cases h) fun hnone => hnone f hf hpath
  conflicting := by
    rw [hattach]
    refine iff_of_false (fun h => by cases h) ?_
    rintro ⟨g, hg, hgpath, hgc⟩
    have hfg : f = g := List.inj_on_of_nodup_map hd (Array.mem_toList_iff.2 hf)
      (Array.mem_toList_iff.2 hg) (hpath.trans hgpath.symm)
    subst hfg
    exact hc hgc
  rejected e he := by
    rw [hattach] at he
    cases he
  unchanged e he := by
    rw [hattach] at he
    cases he
  changed _ := by
    rw [hattach]
    obtain ⟨n, hn⟩ := Array.getElem?_of_mem hf
    exact ⟨rfl, n, f, hn, hpath, setFlags_at hd hn hpath _⟩

end FieldTree.AnswersCall

/-- **A tree whose fields have different paths answers every call.** -/
theorem FieldTree.answersCall {t : FieldTree} (hd : (t.fields.toList.map Field.path).Nodup)
    (path : FieldPath) (new : FieldFlags) : t.AnswersCall path new := by
  cases hres : t.resolve path with
  | none =>
    have hattach : t.attachOverride path new = (.error (.danglingOverride path), t) := by
      rw [attachOverride, hres]
    have hnone : ∀ f ∈ t.fields, f.path ≠ path := by
      simpa [resolve, Array.find?_eq_none] using hres
    exact .of_dangling hattach hnone
  | some f =>
    have hf : f ∈ t.fields := Array.mem_of_find?_eq_some hres
    have hpath : f.path = path := by simpa using Array.find?_some hres
    by_cases hc : ((f.flags.getD .none).union new).isConflict = true
    · have hattach : t.attachOverride path new = (.error (.conflictingOverride path), t) := by
        rw [attachOverride, hres]
        exact if_pos hc
      exact .of_conflicting hattach hf hpath hc
    · have hattach : t.attachOverride path new =
          (.ok (), t.setFlags path ((f.flags.getD .none).union new)) := by
        rw [attachOverride, hres]
        exact if_neg hc
      exact .of_ok hattach hd hf hpath hc

/-! ## What a run does -/

/-- What is said about the fields of a tree after a run. -/
structure FieldTree.Accumulates (t : FieldTree) (calls : List (FieldPath × FieldFlags)) : Prop where
  /-- Nothing is said about a field exactly if no call with its path was accepted. -/
  absent : ∀ f ∈ (t.attachEach calls).fields,
    f.flags = none ↔ ∀ c ∈ t.accepted calls, c.1 ≠ f.path
  /-- Otherwise the field has the flags that the accepted calls with its path set between them. -/
  united : ∀ f ∈ (t.attachEach calls).fields, ∀ flags, f.flags = some flags →
    (flags.ignore = true ↔ ∃ c ∈ t.accepted calls, c.1 = f.path ∧ c.2.ignore = true) ∧
      (flags.secret = true ↔ ∃ c ∈ t.accepted calls, c.1 = f.path ∧ c.2.secret = true)
  /-- No field is both ignored and secret. -/
  clear : ∀ f ∈ (t.attachEach calls).fields, ¬ (f.isIgnored = true ∧ f.isSecret = true)
  /-- If every call is accepted, so is every call in any other order, with the same outcome. -/
  commutes : t.accepted calls = calls → ∀ calls', calls.Perm calls' →
    t.accepted calls' = calls' ∧ t.attachEach calls' = t.attachEach calls

theorem Outline.accumulates {os : Outline} (hp : os.IsProper)
    (calls : List (FieldPath × FieldFlags)) : (os.tree noFlags).Accumulates calls := by
  have hinitial : noFlags = unitedFlags [] := rfl
  have hrun : ∀ calls, AreConsistent ((os.tree noFlags).accepted calls) ∧
      (os.tree noFlags).attachEach calls =
        os.tree (unitedFlags ((os.tree noFlags).accepted calls)) := by
    intro calls
    have h : _ ∧ (os.tree (unitedFlags [])).attachEach calls = _ :=
      attachEach_united hp areConsistent_nil
    rwa [List.nil_append, ← hinitial] at h
  obtain ⟨hconsistent, hstate⟩ := hrun calls
  have hflags : ∀ f ∈ ((os.tree noFlags).attachEach calls).fields,
      f.flags = unitedFlags ((os.tree noFlags).accepted calls) f.path := by
    intro f hf
    rw [hstate] at hf
    exact flags_of_mem_fields (mem_tree_fields.1 hf)
  refine ⟨fun f hf => ?_, fun f hf flags h => ?_, fun f hf => ?_, fun hself calls' hperm => ?_⟩
  · rw [hflags f hf, unitedFlags_eq_none_iff]
  · rw [hflags f hf] at h
    rw [unitedFlags_eq_some h, ← setsFlag_iff, ← setsFlag_iff]
    exact ⟨Iff.rfl, Iff.rfl⟩
  · have hfield : ∀ flag : FieldFlags → Bool, flag .none = false →
        f.flags.any flag = flag ((unitedFlags ((os.tree noFlags).accepted calls) f.path).getD
          .none) := by
      intro flag hnone
      rw [hflags f hf]
      cases unitedFlags ((os.tree noFlags).accepted calls) f.path with
      | none => exact hnone.symm
      | some flags => rfl
    rw [Field.isIgnored, Field.isSecret, hfield _ rfl, hfield _ rfl, unitedFlags_getD]
    exact hconsistent f.path
  · have hiff : ∀ calls, (os.tree noFlags).accepted calls = calls ↔
        (∀ c ∈ calls, c.1 ∈ os.paths .top) ∧ AreConsistent calls := fun calls =>
      accepted_eq_self_iff hp areConsistent_nil
    obtain ⟨hknown, hall⟩ := (hiff calls).1 hself
    have hself' : (os.tree noFlags).accepted calls' = calls' :=
      (hiff calls').2 ⟨fun c hc => hknown c (hperm.mem_iff.2 hc), hall.perm hperm⟩
    refine ⟨hself', ?_⟩
    rw [(hrun calls').2, hself', hstate, hself, unitedFlags_perm hperm]

/-! ## The main result -/

/-- **Overrides accumulate**: in every state that any run of calls leads to, the next call is
accepted or rejected for what is said about its field, and changes that or nothing; the state is
what the accepted calls say, and their order does not matter. -/
theorem build_accumulates_overrides {shapes : ShapeTable} {definitions : List FieldDefinition}
    {t : FieldTree} (h : FieldTree.build shapes definitions = .ok t)
    (calls : List (FieldPath × FieldFlags)) :
    (∀ path new, (t.attachEach calls).AnswersCall path new) ∧ t.Accumulates calls := by
  obtain ⟨os, -, hp, rfl⟩ := FieldTree.build_eq_ok_iff.1 h
  obtain ⟨flags, hflags⟩ := Outline.attachEach_tree noFlags hp calls
  refine ⟨fun path new => ?_, Outline.accumulates hp calls⟩
  rw [hflags]
  exact FieldTree.answersCall (Outline.paths_nodup hp) path new

/-- An account with a passphrase. -/
def accountDefinitions : List FieldDefinition :=
  [.struct "account" [.scalar "user" .string, .scalar "passphrase" .string]]

/-- The tree of an account. -/
def accountTree : FieldTree :=
  (Outline.nested ⟨"account", by decide⟩ .struct
    (.leaf ⟨"user", by decide⟩ (.scalar .string)
      (.leaf ⟨"passphrase", by decide⟩ (.scalar .string) .done)) .done).tree noFlags

/-- A call that sets no flag, and one that marks the passphrase as secret, made twice. -/
def accountCalls : List (FieldPath × FieldFlags) :=
  let account : FieldPath := ⟨⟨"account", by decide⟩, []⟩
  let passphrase := account.extend (.member ⟨"passphrase", by decide⟩)
  [(account, .none), (passphrase, .confidential), (passphrase, .confidential)]

/-- A call that conflicts with these, and one that leads to the elements of no list. -/
def rejectedCalls : List (FieldPath × FieldFlags) :=
  let account : FieldPath := ⟨⟨"account", by decide⟩, []⟩
  [(account.extend (.member ⟨"passphrase", by decide⟩), .ignored),
    (account.extend (.elementMember ⟨"passphrase", by decide⟩), .ignored)]

theorem build_accumulates_overrides_account :
    FieldTree.build .empty accountDefinitions = .ok accountTree ∧
      accountTree.accepted (accountCalls ++ rejectedCalls) = accountCalls ∧
      (∀ path new, (accountTree.attachEach (accountCalls ++ rejectedCalls)).AnswersCall path new) ∧
      accountTree.Accumulates (accountCalls ++ rejectedCalls) ∧
      accountTree.accepted accountCalls.reverse = accountCalls.reverse ∧
      accountTree.attachEach accountCalls.reverse = accountTree.attachEach accountCalls := by
  have hbuild : FieldTree.build .empty accountDefinitions = .ok accountTree := by cbv
  have haccepted : accountTree.accepted (accountCalls ++ rejectedCalls) = accountCalls := by
    decide +kernel
  have hall : accountTree.accepted accountCalls = accountCalls := by decide +kernel
  obtain ⟨hanswers, haccumulates⟩ :=
    build_accumulates_overrides hbuild (accountCalls ++ rejectedCalls)
  have hreverse := (build_accumulates_overrides hbuild accountCalls).2.commutes hall
    accountCalls.reverse accountCalls.reverse_perm.symm
  exact ⟨hbuild, haccepted, hanswers, haccumulates, hreverse⟩

end ResourceDelta
