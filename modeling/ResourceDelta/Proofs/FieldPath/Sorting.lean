import ResourceDelta.Proofs.FieldPath.Ordering
import ResourceDelta.Proofs.FieldPath.Parsing

/-!
# Sorted paths

Sorting keeps what is below a path together: the path itself comes first, then what is below its
members, then what is below the members of its elements.

* `FieldPath.covers_of_between` — what lies between a path and one below it is below it as well; the
  induction goes over the segments of the path.
* `FieldPath.zone` — where paths stand around a given one: before it, at it, below a member of it,
  below a member of its elements, or after all of these.
* `FieldPath.rank_zone_le` — the zones follow each other in the order of paths.
* `sort_groups_subtrees` — the order of paths is total and keeps subtrees together.
-/

set_option autoImplicit false

namespace ResourceDelta

/-! ## Rows in zones -/

section

variable {α : Type}

/-- If what satisfies a test comes first, it can be cut off. -/
theorem filter_append_filter_not {test : α → Bool} {l : List α}
    (h : l.Pairwise fun a b => test b = true → test a = true) :
    l.filter test ++ l.filter (fun a => !test a) = l := by
  induction l with
  | nil => rfl
  | cons a l ih =>
    obtain ⟨ha, hl⟩ := List.pairwise_cons.1 h
    cases htest : test a with
    | true => simp [htest, ih hl]
    | false =>
      have hnone : ∀ b ∈ l, test b = false := by
        intro b hb
        rw [← Bool.not_eq_true]
        intro htrue
        rw [ha b hb htrue] at htest
        cases htest
      have hnil : l.filter test = [] := by simpa using hnone
      have hall : l.filter (fun a => !test a) = l := by simpa using hnone
      simp [htest, hnil, hall]

/-- A row in which the zones ascend consists of the rows of the zones, one after the other. -/
theorem filter_lt_eq_flatMap {zone : α → Nat} {l : List α}
    (h : l.Pairwise fun a b => zone a ≤ zone b) (n : Nat) :
    l.filter (fun a => zone a < n) =
      (List.range n).flatMap fun k => l.filter fun a => zone a = k := by
  induction n with
  | zero => simp
  | succ n ih =>
    have hpair : (l.filter fun a => zone a < n + 1).Pairwise
        fun a b => decide (zone b < n) = true → decide (zone a < n) = true := by
      refine (h.filter _).imp fun {a b} hab hb => ?_
      simp only [decide_eq_true_eq] at hb ⊢
      omega
    rw [← filter_append_filter_not hpair, List.filter_filter, List.filter_filter, List.range_succ,
      List.flatMap_append, List.flatMap_singleton, ← ih]
    congr 1
    · refine List.filter_congr fun a _ => ?_
      rw [Bool.eq_iff_iff, Bool.and_eq_true]
      simp only [decide_eq_true_eq]
      omega
    · refine List.filter_congr fun a _ => ?_
      rw [Bool.eq_iff_iff, Bool.and_eq_true]
      simp only [Bool.not_eq_true', decide_eq_true_eq, decide_eq_false_iff_not]
      omega

end

namespace FieldPath

variable {p q r : FieldPath}

/-! ## Between a path and one below it -/

/-- What lies between a row and one that starts with it starts with it as well. -/
theorem prefix_of_between : ∀ {ss ts rest : List Segment},
    (List.compareLex Segment.compare ss ts).isLE = true →
    (List.compareLex Segment.compare ts (ss ++ rest)).isLE = true → ss <+: ts
  | [], _, _, _, _ => List.nil_prefix
  | _ :: _, [], _, h, _ => by
    cases h
  | s :: ss, t :: ts, rest, hst, hts => by
    rw [List.cons_append] at hts
    rw [List.compareLex_cons_cons] at hst hts
    have hswap : Segment.compare t s = (Segment.compare s t).swap := Std.OrientedCmp.eq_swap
    rw [hswap] at hts
    cases hcmp : Segment.compare s t with
    | lt =>
      rw [hcmp] at hts
      cases hts
    | gt =>
      rw [hcmp] at hst
      cases hst
    | eq =>
      rw [hcmp] at hst hts
      rw [Std.LawfulEqCmp.eq_of_compare hcmp]
      exact List.cons_prefix_cons.2 ⟨rfl, prefix_of_between hst hts⟩

/-- **What lies between a path and one below it is below it as well.** -/
theorem covers_of_between (hqr : (FieldPath.compare q r).isLE = true)
    (hrp : (FieldPath.compare r p).isLE = true) (h : q.Covers p) : q.Covers r := by
  obtain ⟨rest, hrest⟩ := segments_prefix_iff.2 h
  rw [compare_eq, ← hrest] at hrp
  exact segments_prefix_iff.1 (prefix_of_between hqr hrp)

theorem covers_iff_eq_or_isBelow : q.Covers p ↔ p = q ∨ p.isBelow q = true := by
  rw [isBelow_iff, eq_comm]
  exact covers_iff_eq_or

theorem precedes_of_isBelow (h : p.isBelow q = true) : q.Precedes p := by
  obtain ⟨hc, hne⟩ := isBelow_iff.1 h
  exact precedes_of_covers hc hne

/-! ## Zones around a path -/

/-- Where a path stands around another one. -/
inductive Zone where
  | before
  | here
  /-- At or below a member of the struct. -/
  | member
  /-- At or below a member of the elements. -/
  | elementMember
  /-- Behind all that is below the path. -/
  | after
  deriving DecidableEq, Repr

/-- The place of a zone among the zones. -/
def Zone.rank : Zone → Nat
  | .before => 0
  | .here => 1
  | .member => 2
  | .elementMember => 3
  | .after => 4

theorem Zone.rank_lt (z : Zone) : z.rank < 5 := by
  cases z <;> decide

theorem Zone.rank_injective : Function.Injective Zone.rank := by
  intro y z h
  cases y <;> cases z <;> first | rfl | cases h

/-- The segment that leads from `q` on to a path below it. -/
def nextSegment (q p : FieldPath) : Option Segment :=
  p.segments[q.segments.length]?

/-- Where `p` stands around `q`. -/
def zone (q p : FieldPath) : Zone :=
  if FieldPath.compare p q = .lt then .before
  else if p = q then .here
  else if p.isBelow q then
    if q.nextSegment p = some .element then .elementMember else .member
  else .after

theorem zone_of_precedes (h : p.Precedes q) : q.zone p = .before :=
  if_pos h

theorem zone_self (q : FieldPath) : q.zone q = .here := by
  unfold zone
  rw [compare_refl, if_neg (by decide), if_pos rfl]

theorem zone_of_follows (h : q.Precedes p) :
    q.zone p =
      if p.isBelow q then
        if q.nextSegment p = some .element then .elementMember else .member
      else .after := by
  have hnot : FieldPath.compare p q ≠ .lt := fun hpq => (h.trans hpq).ne rfl
  unfold zone
  rw [if_neg hnot, if_neg h.ne.symm]

theorem trichotomy (p q : FieldPath) : p.Precedes q ∨ p = q ∨ q.Precedes p := by
  unfold Precedes
  rw [compare_swap p q]
  cases h : FieldPath.compare p q with
  | lt => exact .inl rfl
  | eq => exact .inr (.inl (Std.LawfulEqCmp.eq_of_compare h))
  | gt => exact .inr (.inr rfl)

theorem not_isLE_of_precedes (h : p.Precedes q) : ¬ (FieldPath.compare q p).isLE = true := by
  rw [compare_swap p q, show FieldPath.compare p q = .lt from h]
  decide

theorem Precedes.trans_isLE (h : q.Precedes p) (hpr : (FieldPath.compare p r).isLE = true) :
    q.Precedes r :=
  Std.TransCmp.lt_of_lt_of_isLE h hpr

/-- A path below another one goes on with a segment. -/
theorem exists_nextSegment (h : p.isBelow q = true) :
    ∃ s rest, p.segments = q.segments ++ s :: rest ∧ q.nextSegment p = some s := by
  obtain ⟨hc, hne⟩ := isBelow_iff.1 h
  obtain ⟨rest, hrest⟩ := segments_prefix_iff.2 hc
  cases rest with
  | nil =>
    rw [List.append_nil] at hrest
    exact absurd (segments_injective hrest) hne
  | cons s rest =>
    refine ⟨s, rest, hrest.symm, ?_⟩
    rw [nextSegment, ← hrest, List.getElem?_append_right (Nat.le_refl _), Nat.sub_self]
    rfl

/-- What it is for `p` to stand in a zone around `q`. -/
def Zone.Holds (q p : FieldPath) : Zone → Prop
  | .before => p.Precedes q
  | .here => p = q
  | .member => p.isBelow q = true ∧ ∃ name, q.nextSegment p = some (.field name)
  | .elementMember => p.isBelow q = true ∧ q.nextSegment p = some .element
  | .after => q.Precedes p ∧ p.isBelow q = false

theorem zone_holds (q p : FieldPath) : (q.zone p).Holds q p := by
  rcases trichotomy p q with hpq | rfl | hqp
  · rw [zone_of_precedes hpq]
    exact hpq
  · rw [zone_self]
    rfl
  · rw [zone_of_follows hqp]
    split_ifs with hbelow hnext
    · exact ⟨hbelow, hnext⟩
    · obtain ⟨s, -, -, hs⟩ := exists_nextSegment hbelow
      cases s with
      | element => exact absurd hs hnext
      | field name => exact ⟨hbelow, name, hs⟩
    · exact ⟨hqp, by simpa using hbelow⟩

theorem zone_eq_here_iff : q.zone p = .here ↔ p = q := by
  constructor
  · intro h
    have hholds := zone_holds q p
    rw [h] at hholds
    exact hholds
  · rintro rfl
    exact zone_self p

/-- Below a path, names come before the wildcard. -/
theorem nextSegment_of_isLE (hp : p.isBelow q = true) (hr : r.isBelow q = true)
    (hpr : (FieldPath.compare p r).isLE = true) (h : q.nextSegment p = some .element) :
    q.nextSegment r = some .element := by
  obtain ⟨s, ss, hps, hs⟩ := exists_nextSegment hp
  obtain ⟨t, ts, hrt, ht⟩ := exists_nextSegment hr
  rw [h] at hs
  cases hs
  cases t with
  | element => exact ht
  | field n =>
    rw [compare_eq, hps, hrt, compareLex_append, List.compareLex_cons_cons] at hpr
    cases hpr

/-- **The zones around a path follow each other in the order of paths.** -/
theorem rank_zone_le (q : FieldPath) (h : (FieldPath.compare p r).isLE = true) :
    (q.zone p).rank ≤ (q.zone r).rank := by
  rcases trichotomy p q with hpq | rfl | hqp
  · rw [zone_of_precedes hpq]
    exact Nat.zero_le _
  · rw [zone_self]
    rcases trichotomy r p with hrp | rfl | hpr
    · exact absurd h (not_isLE_of_precedes hrp)
    · rw [zone_self]
    · rw [zone_of_follows hpr]
      split_ifs <;> decide
  · have hqr := hqp.trans_isLE h
    rw [zone_of_follows hqp, zone_of_follows hqr]
    by_cases hr : r.isBelow q = true
    · -- then `p`, which lies between, is below `q` as well
      have hq : (FieldPath.compare q p).isLE = true := by
        rw [show FieldPath.compare q p = .lt from hqp]
        rfl
      have hc := covers_of_between hq h (isBelow_iff.1 hr).1
      have hp : p.isBelow q = true := isBelow_iff.2 ⟨hc, hqp.ne⟩
      rw [if_pos hp, if_pos hr]
      by_cases hnext : q.nextSegment p = some .element
      · rw [if_pos hnext, if_pos (nextSegment_of_isLE hp hr h hnext)]
      · rw [if_neg hnext]
        split_ifs <;> decide
    · rw [if_neg hr]
      split_ifs <;> decide

end FieldPath

/-! ## The main result -/

open FieldPath

/-- The comparison of paths is a total order in which subtrees are convex. -/
structure OrdersSubtrees (p q r : FieldPath) : Prop where
  refl : FieldPath.compare p p = .eq
  eq_iff : FieldPath.compare p q = .eq ↔ p = q
  eq_iff_text : FieldPath.compare p q = .eq ↔ p.text = q.text
  swap : FieldPath.compare q p = (FieldPath.compare p q).swap
  antisymm : (FieldPath.compare p q).isLE = true → (FieldPath.compare q p).isLE = true → p = q
  trans : (FieldPath.compare p q).isLE = true → (FieldPath.compare q r).isLE = true →
    (FieldPath.compare p r).isLE = true
  total : (FieldPath.compare p q).isLE = true ∨ (FieldPath.compare q p).isLE = true
  /-- A path comes before what is below it. -/
  below : p.isBelow q = true → FieldPath.compare q p = .lt
  /-- Between a path and one at or below it there is nothing else. -/
  convex : (FieldPath.compare q r).isLE = true → (FieldPath.compare r p).isLE = true →
    (p = q ∨ p.isBelow q = true) → (r = q ∨ r.isBelow q = true)

theorem ordersSubtrees (p q r : FieldPath) : OrdersSubtrees p q r where
  refl := compare_refl p
  eq_iff := Std.LawfulEqCmp.compare_eq_iff_eq
  eq_iff_text := Std.LawfulEqCmp.compare_eq_iff_eq.trans text_injective.eq_iff.symm
  swap := compare_swap p q
  antisymm := isLE_antisymm
  trans := Std.TransCmp.isLE_trans
  total := isLE_total p q
  below := precedes_of_isBelow
  convex hqr hrp h := by
    rw [← covers_iff_eq_or_isBelow] at h ⊢
    exact covers_of_between hqr hrp h

/-- A sorted row around a path. -/
structure IsGrouped (q : FieldPath) (ps before members elementMembers after : List FieldPath) :
    Prop where
  /-- All occurrences of the path stand together, and directly after them all that is below it. -/
  row : FieldPath.sort ps =
    before ++ (List.replicate (ps.count q) q ++ (members ++ (elementMembers ++ after)))
  before : ∀ r ∈ before, r.Precedes q
  /-- What is at or below its members comes first. -/
  members : ∀ r ∈ members, r.isBelow q = true ∧ ∃ name, q.nextSegment r = some (.field name)
  elementMembers : ∀ r ∈ elementMembers, r.isBelow q = true ∧ q.nextSegment r = some .element
  after : ∀ r ∈ after, q.Precedes r ∧ r.isBelow q = false

/-- The paths of a list that stand in a zone around `q`, sorted. -/
def inZone (q : FieldPath) (ps : List FieldPath) (z : Zone) : List FieldPath :=
  (FieldPath.sort ps).filter fun p => q.zone p = z

theorem sort_eq_zones (q : FieldPath) (ps : List FieldPath) :
    FieldPath.sort ps = inZone q ps .before ++ (inZone q ps .here ++
      (inZone q ps .member ++ (inZone q ps .elementMember ++ inZone q ps .after))) := by
  have hmono : (FieldPath.sort ps).Pairwise fun p r => (q.zone p).rank ≤ (q.zone r).rank :=
    (sort_ascending ps).imp (rank_zone_le q)
  have hall : (FieldPath.sort ps).filter (fun p => (q.zone p).rank < 5) = FieldPath.sort ps :=
    List.filter_eq_self.2 fun p _ => decide_eq_true (q.zone p).rank_lt
  have hzone : ∀ z : Zone,
      ((FieldPath.sort ps).filter fun p => (q.zone p).rank = z.rank) = inZone q ps z :=
    fun z => List.filter_congr fun p _ => decide_eq_decide.2 Zone.rank_injective.eq_iff
  calc FieldPath.sort ps
      = (FieldPath.sort ps).filter (fun p => (q.zone p).rank < 5) := hall.symm
    _ = [Zone.before, .here, .member, .elementMember, .after].flatMap fun z =>
          (FieldPath.sort ps).filter fun p => (q.zone p).rank = z.rank :=
        filter_lt_eq_flatMap hmono 5
    _ = _ := by simp [hzone]

theorem exists_isGrouped (q : FieldPath) (ps : List FieldPath) :
    ∃ before members elementMembers after,
      IsGrouped q ps before members elementMembers after := by
  have hin : ∀ {z : Zone}, ∀ r ∈ inZone q ps z, z.Holds q r := by
    intro z r hr
    have hz : q.zone r = z := by simpa using (List.mem_filter.1 hr).2
    exact hz ▸ zone_holds q r
  have hhere : inZone q ps .here = List.replicate (ps.count q) q := by
    rw [← (sort_perm ps).count_eq, ← List.filter_eq]
    exact List.filter_congr fun p _ => decide_eq_decide.2 zone_eq_here_iff
  refine ⟨_, _, _, _, ?_, hin (z := .before), hin (z := .member), hin (z := .elementMember),
    hin (z := .after)⟩
  rw [← hhere]
  exact sort_eq_zones q ps

/-- **The order of paths is total and keeps subtrees together**: sorting gives the one ascending
arrangement of a list, and in it all that is below a path stands directly behind the path. -/
theorem sort_groups_subtrees :
    (∀ p q r, OrdersSubtrees p q r) ∧
    ∀ ps : List FieldPath,
      ((FieldPath.sort ps).Perm ps ∧ Ascending (FieldPath.sort ps)) ∧
      (∀ qs, qs.Perm ps → Ascending qs → qs = FieldPath.sort ps) ∧
      (∀ qs, qs.Perm ps → FieldPath.sort qs = FieldPath.sort ps) ∧
      ∀ q, ∃ before members elementMembers after,
        IsGrouped q ps before members elementMembers after := by
  refine ⟨ordersSubtrees, fun ps => ⟨⟨sort_perm ps, sort_ascending ps⟩, fun qs hperm hasc => ?_,
    fun qs hperm => ?_, fun q => exists_isGrouped q ps⟩⟩
  · exact (sort_eq_of_perm hasc hperm).symm
  · exact sort_eq_of_perm (sort_ascending ps) ((sort_perm ps).trans hperm.symm)

/-- A field with members of its elements. -/
def streams : FieldPath :=
  ⟨⟨"Streams", by decide⟩, []⟩

def streamsName : FieldPath :=
  streams.extend (.member ⟨"Name", by decide⟩)

def streamsId : FieldPath :=
  streams.extend (.elementMember ⟨"Id", by decide⟩)

/-- A field whose name starts alike. -/
def streamsLimit : FieldPath :=
  ⟨⟨"StreamsLimit", by decide⟩, []⟩

theorem sort_groups_subtrees_streams :
    (streamsId.isBelow streams = true ∧ (FieldPath.compare streams streamsName).isLE = true ∧
      (FieldPath.compare streamsName streamsId).isLE = true ∧
      (streamsName = streams ∨ streamsName.isBelow streams = true)) ∧
    ([streams, streams, streamsName, streamsId, streamsLimit].Perm
        [streamsId, streamsLimit, streams, streamsName, streams] ∧
      Ascending [streams, streams, streamsName, streamsId, streamsLimit] ∧
      [streams, streams, streamsName, streamsId, streamsLimit] =
        FieldPath.sort [streamsId, streamsLimit, streams, streamsName, streams]) := by
  have hbelow : streamsId.isBelow streams = true := by decide
  have hle : (FieldPath.compare streams streamsName).isLE = true := by decide
  have hle' : (FieldPath.compare streamsName streamsId).isLE = true := by decide
  have hperm : [streams, streams, streamsName, streamsId, streamsLimit].Perm
      [streamsId, streamsLimit, streams, streamsName, streams] := by decide
  have hascending : Ascending [streams, streams, streamsName, streamsId, streamsLimit] := by
    unfold Ascending
    decide
  obtain ⟨horder, hsort⟩ := sort_groups_subtrees
  exact ⟨⟨hbelow, hle, hle', (horder streamsId streams streamsName).convex hle hle' (.inr hbelow)⟩,
    hperm, hascending, (hsort _).2.1 _ hperm hascending⟩

end ResourceDelta
