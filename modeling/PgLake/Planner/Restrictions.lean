/-
  Restrictions collected while a query is planned (`planner/restriction_collector.c`) and the
  list that a scan snapshot reads from them (`src/fdw/snapshot.c`).

  The planner calls `PgLakeRecordPlannerRestrictions` once for every relation it plans.  A range
  table entry carries a unique identifier, but the planner copies entries, so several planned
  instances can report under one identifier.

  Main result: `collected_sound_iff`.
-/
import Mathlib.Data.List.AList
import Mathlib.Data.List.Induction

namespace PgLake.Planner

open List

variable {Clause Row : Type}

/-- `RestrictInfo`: a clause and the number the planner gave it, unique only
    inside one query level. -/
structure RestrictInfo (Clause : Type) where
  rinfoSerial : ℕ
  clause : Clause
  deriving DecidableEq

/-- The part of `RTEKind` the hook tells apart. -/
inductive RTEKind where
  | relation
  | other
  deriving DecidableEq

/-- `RangeTblEntry`; the identifier is kept in the otherwise unused
    `functions` list. -/
structure RangeTblEntry where
  rtekind : RTEKind
  isAnyLakeForeignTable : Bool
  functions : List ℕ
  deriving DecidableEq

/-- `PlannerRelationRestriction`: a relation with its restrictions. -/
structure PlannerRelationRestriction (Clause : Type) where
  rte : RangeTblEntry
  baseRestrictionList : List (RestrictInfo Clause)

/-- One call of the hook: the entry and the `baserestrictinfo` of its
    `RelOptInfo`. -/
structure HookCall (Clause : Type) where
  rte : RangeTblEntry
  baserestrictinfo : List (RestrictInfo Clause)

/-- The static identifier counter and the map of the current restriction
    context. -/
structure Collector (Clause : Type) where
  uniqueRelationIdentifier : ℕ
  relationRestrictionMap : AList (fun _ : ℕ => PlannerRelationRestriction Clause)

def maxUniqueRelationIdentifier : ℕ := 1000000

/-- `GenerateNewUniqueRelationIdentifier`: the identifier and the next value of
    the counter. -/
def generateNewUniqueRelationIdentifier (counter : ℕ) : ℕ × ℕ :=
  let current := if counter > maxUniqueRelationIdentifier then 0 else counter
  (current, current + 1)

variable (c : Collector Clause)

/-- `AssignUniqueRelationIdentifier`: an entry that has an identifier keeps it. -/
def assignUniqueRelationIdentifier (rte : RangeTblEntry) : Collector Clause × RangeTblEntry :=
  if rte.functions.length ≠ 0 then (c, rte)
  else
    let (id, next) := generateNewUniqueRelationIdentifier c.uniqueRelationIdentifier
    ({ c with uniqueRelationIdentifier := next }, { rte with functions := rte.functions ++ [id] })

def getUniqueRelationIdentifier (rte : RangeTblEntry) : ℕ := rte.functions.headD 0

def restrictionExists (baseRestrictionList : List (RestrictInfo Clause))
    (restrictInfo : RestrictInfo Clause) : Bool :=
  baseRestrictionList.any fun base => base.rinfoSerial == restrictInfo.rinfoSerial

/-- The loop over `baserestrictinfo`: append what is not there yet. -/
def addRestrictions (stored restrictions : List (RestrictInfo Clause)) :
    List (RestrictInfo Clause) :=
  restrictions.foldl (fun stored r => if restrictionExists stored r then stored else stored ++ [r])
    stored

variable (call : HookCall Clause)

def HookCall.recorded : Bool :=
  call.rte.rtekind = .relation && call.rte.isAnyLakeForeignTable

/-- `PgLakeRecordPlannerRestrictions`. -/
def recordPlannerRestrictions : Collector Clause :=
  if call.recorded then
    let (c, rte) := assignUniqueRelationIdentifier c call.rte
    let id := getUniqueRelationIdentifier rte
    let entry := (c.relationRestrictionMap.lookup id).getD ⟨rte, []⟩
    let stored := addRestrictions entry.baseRestrictionList call.baserestrictinfo
    { c with relationRestrictionMap := c.relationRestrictionMap.insert id ⟨entry.rte, stored⟩ }
  else c

/-- `GetCurrentRelationRestrictions` lists the map in the order of the hash
    table, any permutation of its entries. -/
def CurrentRelationRestrictions (restrictions : List (PlannerRelationRestriction Clause)) : Prop :=
  restrictions.Perm (c.relationRestrictionMap.entries.map Sigma.snd)

/-- `GetBaseRestrictInfoForRelation`, with which `CreatePgLakeScanSnapshot`
    finds the restrictions of an identifier. -/
def getBaseRestrictInfoForRelation (restrictions : List (PlannerRelationRestriction Clause))
    (id : ℕ) : List (RestrictInfo Clause) :=
  restrictions.foldl (fun base restriction =>
    if restriction.baseRestrictionList.isEmpty then base
    else if getUniqueRelationIdentifier restriction.rte = id then
      base ++ restriction.baseRestrictionList
    else base) []

/-! ## Instances -/

/-- The identifier under which a call reports, if it reports at all. -/
def HookCall.identifier : Option ℕ :=
  if call.recorded then
    some (getUniqueRelationIdentifier (assignUniqueRelationIdentifier c call.rte).2)
  else none

/-- The planned instances of a sequence of calls: the identifier and the
    restrictions of each one that reports. -/
def plannedInstances : Collector Clause → List (HookCall Clause) →
    List (ℕ × List (RestrictInfo Clause))
  | _, [] => []
  | c, call :: calls =>
    (match call.identifier c with
     | some id => [(id, call.baserestrictinfo)]
     | none => []) ++ plannedInstances (recordPlannerRestrictions c call) calls

/-- All restrictions reported under an identifier, in the order of the calls. -/
def reportedRestrictions (id : ℕ) (instances : List (ℕ × List (RestrictInfo Clause))) :
    List (RestrictInfo Clause) :=
  (instances.filter fun inst => inst.1 = id).flatMap Prod.snd

/-- No restriction has been collected. -/
def Collector.start (counter : ℕ) : Collector Clause := ⟨counter, ∅⟩

/-! ## What is stored -/

/-- `r` is the first of the list with its serial number. -/
def FirstWithSerial (l : List (RestrictInfo Clause)) (r : RestrictInfo Clause) : Prop :=
  ∃ before after, l = before ++ r :: after ∧ ∀ q ∈ before, q.rinfoSerial ≠ r.rinfoSerial

variable {r : RestrictInfo Clause}

theorem restrictionExists_iff {stored : List (RestrictInfo Clause)} :
    restrictionExists stored r ↔ ∃ q ∈ stored, q.rinfoSerial = r.rinfoSerial := by
  simp [restrictionExists]

theorem addRestrictions_append (stored l₁ l₂ : List (RestrictInfo Clause)) :
    addRestrictions stored (l₁ ++ l₂) = addRestrictions (addRestrictions stored l₁) l₂ :=
  foldl_append

theorem addRestrictions_concat (stored l : List (RestrictInfo Clause)) (r : RestrictInfo Clause) :
    addRestrictions stored (l ++ [r]) =
      if restrictionExists (addRestrictions stored l) r then addRestrictions stored l
      else addRestrictions stored l ++ [r] := by
  rw [addRestrictions_append]
  rfl

variable (l : List (RestrictInfo Clause))

theorem exists_serial_addRestrictions :
    ∀ r ∈ l, ∃ q ∈ addRestrictions [] l, q.rinfoSerial = r.rinfoSerial := by
  induction l using List.reverseRecOn with
  | nil => simp
  | append_singleton l r ih =>
    intro q hq
    rw [addRestrictions_concat]
    rcases mem_append.mp hq with hq | hq
    · obtain ⟨p, hp, hser⟩ := ih q hq
      split_ifs
      · exact ⟨p, hp, hser⟩
      · exact ⟨p, mem_append_left _ hp, hser⟩
    · obtain rfl := mem_singleton.mp hq
      split_ifs with hex
      · exact restrictionExists_iff.mp hex
      · exact ⟨q, by simp, rfl⟩

theorem FirstWithSerial.mem {l : List (RestrictInfo Clause)} (h : FirstWithSerial l r) : r ∈ l := by
  obtain ⟨before, after, rfl, -⟩ := h
  simp

theorem firstWithSerial_append {l₁ l₂ : List (RestrictInfo Clause)} : FirstWithSerial (l₁ ++ l₂) r ↔
      FirstWithSerial l₁ r ∨ (FirstWithSerial l₂ r ∧ ∀ q ∈ l₁, q.rinfoSerial ≠ r.rinfoSerial) := by
  constructor
  · rintro ⟨before, after, heq, hf⟩
    rcases append_eq_append_iff.mp heq with ⟨mid, rfl, rfl⟩ | ⟨mid, rfl, hmid⟩
    · refine Or.inr ⟨⟨mid, after, rfl, fun q hq => ?_⟩, fun q hq => ?_⟩
      · exact hf q (mem_append_right _ hq)
      · exact hf q (mem_append_left _ hq)
    · cases mid with
      | nil =>
        refine Or.inr ⟨⟨[], after, hmid.symm, by simp⟩, ?_⟩
        rwa [append_nil]
      | cons q mid =>
        obtain ⟨rfl, -⟩ := List.cons.inj hmid
        exact Or.inl ⟨before, mid, rfl, hf⟩
  · rintro (⟨before, after, rfl, hf⟩ | ⟨⟨before, after, rfl, hf⟩, hnew⟩)
    · exact ⟨before, after ++ l₂, by simp, hf⟩
    · refine ⟨l₁ ++ before, after, by simp, fun q hq => ?_⟩
      rcases mem_append.mp hq with hq | hq
      · exact hnew q hq
      · exact hf q hq

theorem firstWithSerial_singleton {r q : RestrictInfo Clause} : FirstWithSerial [r] q ↔ q = r := by
  constructor
  · exact fun h => mem_singleton.mp h.mem
  · rintro rfl
    exact ⟨[], [], rfl, by simp⟩

theorem mem_addRestrictions_iff : ∀ q, q ∈ addRestrictions [] l ↔ FirstWithSerial l q := by
  induction l using List.reverseRecOn with
  | nil =>
    intro q
    constructor
    · intro h
      cases h
    · intro h
      cases h.mem
  | append_singleton l r ih =>
    intro q
    rw [addRestrictions_concat, firstWithSerial_append, firstWithSerial_singleton]
    split_ifs with hex
    · obtain ⟨p, hp, hser⟩ := restrictionExists_iff.mp hex
      rw [ih]
      constructor
      · exact Or.inl
      · rintro (h | ⟨rfl, hnew⟩)
        · exact h
        · exact absurd hser (hnew p ((ih p).mp hp).mem)
    · have hnew : ∀ p ∈ l, p.rinfoSerial ≠ r.rinfoSerial := by
        intro p hp hser
        obtain ⟨p', hp', hser'⟩ := exists_serial_addRestrictions l p hp
        exact hex (restrictionExists_iff.mpr ⟨p', hp', hser'.trans hser⟩)
      rw [mem_append, mem_singleton, ih]
      constructor
      · rintro (h | rfl)
        · exact Or.inl h
        · exact Or.inr ⟨rfl, hnew⟩
      · rintro (h | ⟨rfl, -⟩)
        · exact Or.inl h
        · exact Or.inr rfl

/-! ## The map after a sequence of calls -/

def Collector.stored (c : Collector Clause) (id : ℕ) : List (RestrictInfo Clause) :=
  ((c.relationRestrictionMap.lookup id).map (·.baseRestrictionList)).getD []

/-- Every entry is filed under the identifier of its range table entry. -/
def Collector.WellFiled (c : Collector Clause) : Prop :=
  ∀ id restriction, c.relationRestrictionMap.lookup id = some restriction →
    getUniqueRelationIdentifier restriction.rte = id

@[simp] theorem assign_map (rte : RangeTblEntry) :
    (assignUniqueRelationIdentifier c rte).1.relationRestrictionMap = c.relationRestrictionMap := by
  unfold assignUniqueRelationIdentifier
  split_ifs <;> rfl

open Collector

/-- **One call of the hook**: a call that does not report changes nothing, any
    other adds its restrictions to the list of its identifier only. -/
theorem record_cases (call : HookCall Clause) :
    (call.identifier c = none ∧ recordPlannerRestrictions c call = c) ∨
    (∃ id rte, call.identifier c = some id ∧ getUniqueRelationIdentifier rte = id ∧
      (recordPlannerRestrictions c call).relationRestrictionMap = c.relationRestrictionMap.insert id
          ⟨((c.relationRestrictionMap.lookup id).map (·.rte)).getD rte,
            addRestrictions (c.stored id) call.baserestrictinfo⟩) := by
  unfold HookCall.identifier recordPlannerRestrictions
  split_ifs with hrec
  · refine Or.inr ⟨_, (assignUniqueRelationIdentifier c call.rte).2, rfl, rfl, ?_⟩
    simp only [assign_map, stored]
    cases c.relationRestrictionMap.lookup
      (getUniqueRelationIdentifier (assignUniqueRelationIdentifier c call.rte).2) <;> rfl
  · exact Or.inl ⟨rfl, rfl⟩

theorem record_wellFiled {c : Collector Clause} (hc : c.WellFiled) (call : HookCall Clause) :
    (recordPlannerRestrictions c call).WellFiled := by
  rcases record_cases c call with ⟨-, heq⟩ | ⟨id, rte, -, hrte, hmap⟩
  · rwa [heq]
  · intro id' restriction hl
    rw [hmap] at hl
    by_cases hid : id' = id
    · subst hid
      rw [AList.lookup_insert, Option.some.injEq] at hl
      subst hl
      cases hold : c.relationRestrictionMap.lookup id' with
      | none => simpa [hold] using hrte
      | some old => simpa [hold] using hc id' old hold
    · rw [AList.lookup_insert_ne hid] at hl
      exact hc id' restriction hl

theorem record_stored (call : HookCall Clause) (id : ℕ) :
    (recordPlannerRestrictions c call).stored id =
      if call.identifier c = some id then addRestrictions (c.stored id) call.baserestrictinfo
      else c.stored id := by
  rcases record_cases c call with ⟨hn, heq⟩ | ⟨id', rte, hs, -, hmap⟩
  · simp [hn, heq]
  · by_cases hid : id' = id
    · subst hid
      simp [hs, stored, hmap]
    · have hne : id ≠ id' := fun h => hid h.symm
      simp [hs, hid, stored, hmap, AList.lookup_insert_ne hne]

/-- **A sequence of calls** adds the restrictions reported under an identifier,
    in order, to the list of that identifier. -/
theorem recordAll_stored (id : ℕ) (calls : List (HookCall Clause)) :
    ∀ c : Collector Clause, (calls.foldl recordPlannerRestrictions c).stored id =
      addRestrictions (c.stored id) (reportedRestrictions id (plannedInstances c calls)) := by
  induction calls with
  | nil => intro c; rfl
  | cons call calls ih =>
    intro c
    rw [foldl_cons, ih, record_stored]
    cases hid : call.identifier c with
    | none => simp [plannedInstances, hid]
    | some id' =>
      by_cases heq : id' = id
      · simp [plannedInstances, hid, heq, reportedRestrictions, addRestrictions_append]
      · simp [plannedInstances, hid, heq, reportedRestrictions]

theorem recordAll_wellFiled (calls : List (HookCall Clause)) :
    ∀ {c : Collector Clause}, c.WellFiled →
      (calls.foldl recordPlannerRestrictions c).WellFiled := by
  induction calls with
  | nil => exact fun hc => hc
  | cons call calls ih => exact fun hc => ih (record_wellFiled hc call)

/-! ## The restrictions of a scan -/

variable {restrictions : List (PlannerRelationRestriction Clause)}

theorem mem_getBaseRestrictInfo {id : ℕ} :
    r ∈ getBaseRestrictInfoForRelation restrictions id ↔
      ∃ p ∈ restrictions, getUniqueRelationIdentifier p.rte = id ∧ r ∈ p.baseRestrictionList := by
  unfold getBaseRestrictInfoForRelation
  induction restrictions using List.reverseRecOn with
  | nil => simp
  | append_singleton restrictions p ih =>
    simp only [foldl_append, foldl_cons, foldl_nil, mem_append,
      mem_singleton, or_and_right, exists_or, exists_eq_left]
    split_ifs with he hid
    · rw [ih]
      simp [isEmpty_iff.mp he]
    · rw [mem_append, ih]
      simp [hid]
    · rw [ih]
      simp [hid]

theorem mem_baseRestrictInfo_iff_stored {c : Collector Clause} (hc : c.WellFiled)
    (hcur : CurrentRelationRestrictions c restrictions) {id : ℕ} :
    r ∈ getBaseRestrictInfoForRelation restrictions id ↔ r ∈ c.stored id := by
  have hm : ∀ p, p ∈ restrictions ↔ ∃ id, c.relationRestrictionMap.lookup id = some p := by
    intro p
    rw [hcur.mem_iff, mem_map]
    constructor
    · rintro ⟨⟨id, q⟩, hq, rfl⟩
      exact ⟨id, AList.mem_lookup_iff.mpr hq⟩
    · rintro ⟨id, hl⟩
      exact ⟨⟨id, p⟩, AList.mem_lookup_iff.mp hl, rfl⟩
  rw [mem_getBaseRestrictInfo]
  constructor
  · rintro ⟨p, hp, hid, hr⟩
    obtain ⟨id', hl⟩ := (hm p).mp hp
    obtain rfl : id' = id := (hc id' p hl).symm.trans hid
    simpa [stored, hl] using hr
  · intro hr
    cases hl : c.relationRestrictionMap.lookup id with
    | none => simp [stored, hl] at hr
    | some p =>
      exact ⟨p, (hm p).mpr ⟨id, hl⟩, hc id p hl, by simpa [stored, hl] using hr⟩

/-- The restrictions a scan uses for an identifier are those that come first
    with their serial number among the restrictions reported under it. -/
theorem baseRestrictInfo_mem_iff {counter : ℕ} {calls : List (HookCall Clause)}
    (hcur : CurrentRelationRestrictions
      (calls.foldl recordPlannerRestrictions (.start counter)) restrictions)
    {id : ℕ} :
    r ∈ getBaseRestrictInfoForRelation restrictions id ↔
      FirstWithSerial (reportedRestrictions id (plannedInstances (.start counter) calls)) r := by
  have hs : (start counter : Collector Clause).WellFiled := by
    intro id p hl
    cases hl
  rw [mem_baseRestrictInfo_iff_stored (recordAll_wellFiled calls hs) hcur, recordAll_stored]
  exact mem_addRestrictions_iff _ r

/-! ## Soundness -/

/-- An instance is the first to report `r` under its serial number. -/
def Introduces (id : ℕ) (before : List (ℕ × List (RestrictInfo Clause)))
    (own : List (RestrictInfo Clause)) (r : RestrictInfo Clause) : Prop :=
  FirstWithSerial own r ∧ ∀ q ∈ reportedRestrictions id before, q.rinfoSerial ≠ r.rinfoSerial

theorem reportedRestrictions_append (id : ℕ) (l₁ l₂ : List (ℕ × List (RestrictInfo Clause))) :
    reportedRestrictions id (l₁ ++ l₂) =
      reportedRestrictions id l₁ ++ reportedRestrictions id l₂ := by
  simp [reportedRestrictions]

theorem reportedRestrictions_cons_self (id : ℕ) (own : List (RestrictInfo Clause))
    (l : List (ℕ × List (RestrictInfo Clause))) :
    reportedRestrictions id ((id, own) :: l) = own ++ reportedRestrictions id l := by
  simp [reportedRestrictions]

theorem firstWithSerial_reported_iff {id : ℕ} (instances : List (ℕ × List (RestrictInfo Clause))) :
    FirstWithSerial (reportedRestrictions id instances) r ↔
      ∃ before own after, instances = before ++ (id, own) :: after ∧
        Introduces id before own r := by
  constructor
  · intro h
    induction instances using List.reverseRecOn with
    | nil => cases h.mem
    | append_singleton instances inst ih =>
      rw [reportedRestrictions_append, firstWithSerial_append] at h
      rcases h with hold | ⟨hl, hnew⟩
      · obtain ⟨before, own, after, rfl, hintro⟩ := ih hold
        exact ⟨before, own, after ++ [inst], by simp, hintro⟩
      · obtain ⟨id', own⟩ := inst
        by_cases hid : id' = id
        · subst hid
          exact ⟨instances, own, [], rfl, by simpa [reportedRestrictions] using hl, hnew⟩
        · have hm := hl.mem
          simp [reportedRestrictions, hid] at hm
  · rintro ⟨before, own, after, rfl, hf, hnew⟩
    rw [reportedRestrictions_append, reportedRestrictions_cons_self, firstWithSerial_append,
      firstWithSerial_append]
    exact Or.inr ⟨Or.inl hf, hnew⟩

/-- The row satisfies every restriction. -/
def SatisfiesAll (sat : Row → Clause → Prop) (row : Row) (l : List (RestrictInfo Clause)) : Prop :=
  ∀ r ∈ l, sat row r.clause

/-- No two instances planned under an identifier conflict: what one of them introduces holds of
    every row that satisfies the restrictions of another. -/
def Compatible (sat : Row → Clause → Prop) (id : ℕ)
    (instances : List (ℕ × List (RestrictInfo Clause))) : Prop :=
  ∀ before own after, instances = before ++ (id, own) :: after →
    ∀ r, Introduces id before own r → ∀ other, (id, other) ∈ before ++ after →
      ∀ row, SatisfiesAll sat row other → sat row r.clause

/-- **The collected restrictions are sound for an identifier exactly when no two instances planned
    under it conflict.** -/
theorem collected_sound_iff (sat : Row → Clause → Prop) (counter : ℕ)
    (calls : List (HookCall Clause)) (restrictions : List (PlannerRelationRestriction Clause))
    (hcur : CurrentRelationRestrictions
      (calls.foldl recordPlannerRestrictions (.start counter)) restrictions) (id : ℕ) :
    (∀ row, (∃ inst ∈ plannedInstances (.start counter) calls,
        inst.1 = id ∧ SatisfiesAll sat row inst.2) →
      SatisfiesAll sat row (getBaseRestrictInfoForRelation restrictions id)) ↔
    Compatible sat id (plannedInstances (.start counter) calls) := by
  constructor
  · intro h before own after heq r hr other hother row hrow
    have hmem : (id, other) ∈ plannedInstances (.start counter) calls := by
      rw [heq, mem_append, mem_cons]
      rcases mem_append.mp hother with hbefore | hafter
      · exact Or.inl hbefore
      · exact Or.inr (Or.inr hafter)
    refine h row ⟨_, hmem, rfl, hrow⟩ r ?_
    rw [baseRestrictInfo_mem_iff hcur, firstWithSerial_reported_iff]
    exact ⟨before, own, after, heq, hr⟩
  · rintro h row ⟨⟨_, other⟩, hinst, rfl, hrow⟩ r hr
    rw [baseRestrictInfo_mem_iff hcur, firstWithSerial_reported_iff] at hr
    obtain ⟨before, own, after, heq, hr⟩ := hr
    rw [heq, mem_append, mem_cons] at hinst
    rcases hinst with hbefore | hsame | hafter
    · exact h before own after heq r hr other (mem_append_left _ hbefore) row hrow
    · -- an instance's own restrictions hold of its rows
      obtain ⟨-, rfl⟩ := Prod.mk.inj hsame
      exact hrow r hr.1.mem
    · exact h before own after heq r hr other (mem_append_right _ hafter) row hrow

/-- A lake relation that was given identifier `7` before planning. -/
def lakeEntry : RangeTblEntry := ⟨.relation, true, [7]⟩

/-- The clause `a = k`, read on the value of `a`. -/
def equals (a k : ℤ) : Prop := a = k

theorem compatible_same_filter : Compatible equals 7 (plannedInstances (.start 0)
    [⟨lakeEntry, [⟨1, (4 : ℤ)⟩]⟩, ⟨lakeEntry, [⟨2, 4⟩]⟩]) := by
  have hfour : ∀ own : List (RestrictInfo ℤ), (7, own) ∈ plannedInstances (.start 0)
      [⟨lakeEntry, [⟨1, (4 : ℤ)⟩]⟩, ⟨lakeEntry, [⟨2, 4⟩]⟩] → own = [⟨1, 4⟩] ∨ own = [⟨2, 4⟩] := by
    intro own hown
    simpa [plannedInstances, HookCall.identifier, HookCall.recorded, lakeEntry,
      assignUniqueRelationIdentifier, getUniqueRelationIdentifier] using hown
  intro before own after heq r hr other ho a ha
  rw [heq] at hfour
  have hown := hfour own (by simp)
  have ho := hfour other (by rcases mem_append.mp ho with h | h <;> simp [h])
  have hcl : r.clause = 4 := by
    rcases hown with rfl | rfl <;> rw [mem_singleton.mp hr.1.mem]
  rw [hcl]
  rcases ho with rfl | rfl <;> exact ha _ mem_cons_self

/-- The rows of both references satisfy what the scan uses. -/
theorem collected_sound_iff_same_filter : CurrentRelationRestrictions
        ([⟨lakeEntry, [⟨1, (4 : ℤ)⟩]⟩, ⟨lakeEntry, [⟨2, 4⟩]⟩].foldl recordPlannerRestrictions
          (.start 0)) [⟨lakeEntry, [⟨1, 4⟩, ⟨2, 4⟩]⟩] ∧
      ∀ a, (∃ inst ∈ plannedInstances (.start 0)
            [⟨lakeEntry, [⟨1, (4 : ℤ)⟩]⟩, ⟨lakeEntry, [⟨2, 4⟩]⟩],
          inst.1 = 7 ∧ SatisfiesAll equals a inst.2) →
        SatisfiesAll equals a
          (getBaseRestrictInfoForRelation [⟨lakeEntry, [⟨1, 4⟩, ⟨2, 4⟩]⟩] 7) :=
  ⟨.refl _, (collected_sound_iff equals 0 [⟨lakeEntry, [⟨1, 4⟩]⟩, ⟨lakeEntry, [⟨2, 4⟩]⟩]
    [⟨lakeEntry, [⟨1, 4⟩, ⟨2, 4⟩]⟩] (.refl _) 7).mpr compatible_same_filter⟩

/-- A CTE inlined at two references, with `a = 1` at one and `a = 2` at the
    other: the scan of both uses `a = 1 AND a = 2`, and the row `a = 1` that
    the first one needs is lost. -/
theorem inlined_copies_lose_rows : (∃ inst ∈ plannedInstances (.start 0)
        [⟨lakeEntry, [⟨1, (1 : ℤ)⟩]⟩, ⟨lakeEntry, [⟨2, 2⟩]⟩],
      inst.1 = 7 ∧ SatisfiesAll equals 1 inst.2) ∧
    CurrentRelationRestrictions
      ([⟨lakeEntry, [⟨1, (1 : ℤ)⟩]⟩, ⟨lakeEntry, [⟨2, 2⟩]⟩].foldl recordPlannerRestrictions
        (.start 0)) [⟨lakeEntry, [⟨1, 1⟩, ⟨2, 2⟩]⟩] ∧
    ¬ SatisfiesAll equals 1
      (getBaseRestrictInfoForRelation [⟨lakeEntry, [⟨1, 1⟩, ⟨2, 2⟩]⟩] 7) := by
  refine ⟨⟨(7, [⟨1, 1⟩]), ?_, rfl, ?_⟩, .refl _, fun h => ?_⟩
  · exact mem_cons_self
  · intro r hr
    obtain rfl := mem_singleton.mp hr
    rfl
  · have := h ⟨2, 2⟩ (by decide)
    simp [equals] at this

end PgLake.Planner
