import ComposeGuards.Proofs.Guard.Recognition
import Mathlib.Data.List.Forall2

/-! # Anchors and their messages

A call to the signature of an enabled guard is an anchor. The scan tells of each anchor once, in the
order of the calls: with the spans of the guard where the body has its shape, and otherwise with the
reason why it is declined. The drift policy decides in which words and at which level a declined
anchor is told, and nothing else.
-/
namespace ComposeGuards

/-- The level at which a declined anchor is told. -/
def DriftPolicy.level : DriftPolicy → Log.Level
  | .silent => .debug
  | .warn => .warn

/-- Whether the guard does not have its shape around its anchor. -/
def Body.declines (b : Body) (anchor : Guard × Nat) : Bool :=
  match anchor.1.spans b anchor.2 with
  | .ok _ => false
  | .error _ => true

namespace Sighting

/-- The guard and the position of a sighting. -/
def anchor (x : Sighting) : Guard × Nat :=
  (x.guard, x.call)

/-- A declined sighting is told at the level of the drift policy, and the reason comes last. -/
theorem message_declined {x : Sighting} {e : Guard.Mismatch} (h : x.outcome = .error e)
    (d : DriftPolicy) (m : Method) :
    ∃ words, x.message d m = ⟨d.level, words ++ e.reason⟩ := by
  simp only [message, h]
  cases d with
  | silent => exact ⟨_, rfl⟩
  | warn => exact ⟨_, rfl⟩

/-- A recognised sighting is told without regard to the drift policy. -/
theorem message_found {x : Sighting} {ss : List Span} (h : x.outcome = .ok ss)
    (d d' : DriftPolicy) (m : Method) : x.message d m = x.message d' m := by
  simp only [message, h]

end Sighting

namespace Settings

/-- The same guards under another drift policy. -/
def withDrift (s : Settings) (d : DriftPolicy) : Settings :=
  { s with drift := d }

/-- The calls to the signatures of enabled guards, in order. -/
def anchors (s : Settings) (m : Method) : List (Guard × Nat) :=
  (s.sightings m).map Sighting.anchor

/-- What a message says about an anchor of the method. -/
inductive Tells (s : Settings) (m : Method) : Guard × Nat → Log.Message → Prop
  | found {g : Guard} {call : Nat} {ss : List Span} (shape : g.Shape m.body call ss) :
      Tells s m (g, call)
        ⟨.debug, g.name ++ " at " ++ positionText call ++ " in " ++ m.name ++ ": [" ++
          ", ".intercalate (ss.map Sighting.spanRecord) ++ "]"⟩
  | quiet {g : Guard} {call : Nat} {e : Guard.Mismatch} (drift : s.drift = .silent)
      (declined : g.spans m.body call = .error e) :
      Tells s m (g, call)
        ⟨.debug, g.name ++ " at " ++ positionText call ++ " in " ++ m.name ++ " declined: " ++
          e.reason⟩
  | loud {g : Guard} {call : Nat} {e : Guard.Mismatch} (drift : s.drift = .warn)
      (declined : g.spans m.body call = .error e) :
      Tells s m (g, call)
        ⟨.warn, g.name ++ " call at " ++ positionText call ++ " in " ++ m.name ++ m.desc ++
          " does not match the expected shape: " ++ e.reason⟩

/-- Every anchor is told of once and in order, as a match or as declined. -/
structure Accounts (s : Settings) (m : Method) : Prop where
  increasing : (s.anchors m).Pairwise fun a b => a.2 < b.2
  anchors : ∀ g call, (g, call) ∈ s.anchors m ↔ m.body.Anchors g call ∧ s.enables g = true
  told : List.Forall₂ (s.Tells m) (s.anchors m) (s.scanLog m)
  total : (s.scanLog m).length = (s.findings m).length + (s.anchors m).countP m.body.declines

/-- Two runs over a method that find the same and tell of the same anchors. A match is told in the
same words, and a declined anchor for the same reason, each time at the level of the drift policy. -/
structure DifferInDriftOnly (s t : Settings) (m : Method) : Prop where
  findings : t.findings m = s.findings m
  anchors : t.anchors m = s.anchors m
  accounts : s.Accounts m ∧ t.Accounts m
  matched : ∀ (k : Nat) g call ss, (s.anchors m)[k]? = some (g, call) →
    g.Shape m.body call ss → (t.scanLog m)[k]? = (s.scanLog m)[k]?
  declined : ∀ (k : Nat) g call e, (s.anchors m)[k]? = some (g, call) →
    g.spans m.body call = .error e →
      ∃ words words', (s.scanLog m)[k]? = some ⟨s.drift.level, words ++ e.reason⟩ ∧
        (t.scanLog m)[k]? = some ⟨t.drift.level, words' ++ e.reason⟩

section Account
variable (s : Settings) (m : Method)

theorem mem_sightings {x : Sighting} :
    x ∈ s.sightings m ↔
      (m.body.Anchors x.guard x.call ∧ x.outcome = x.guard.spans m.body x.call) ∧
        s.enables x.guard = true := by
  rw [sightings, List.mem_filter, Body.mem_sightings]

theorem mem_anchors {g : Guard} {call : Nat} :
    (g, call) ∈ s.anchors m ↔ m.body.Anchors g call ∧ s.enables g = true := by
  rw [anchors, List.mem_map]
  constructor
  · rintro ⟨x, hx, hanchor⟩
    cases hanchor
    have hsighting := (s.mem_sightings m).mp hx
    exact ⟨hsighting.1.1, hsighting.2⟩
  · rintro ⟨hanchor, henabled⟩
    refine ⟨⟨g, call, g.spans m.body call⟩, ?_, rfl⟩
    exact (s.mem_sightings m).mpr ⟨⟨hanchor, rfl⟩, henabled⟩

theorem anchors_pairwise : (s.anchors m).Pairwise fun a b => a.2 < b.2 := by
  have hsightings : (s.sightings m).Pairwise fun x y => x.call < y.call :=
    m.body.sightings_pairwise.filter _
  exact List.pairwise_map.mpr hsightings

theorem tells_of_mem_sightings {x : Sighting} (hx : x ∈ s.sightings m) :
    s.Tells m x.anchor (x.message s.drift m) := by
  have houtcome := ((s.mem_sightings m).mp hx).1.2
  cases x with
  | mk g call outcome =>
    cases outcome with
    | ok ss => exact .found (Guard.spans_eq_ok_iff.mp houtcome.symm)
    | error e =>
      cases hd : s.drift with
      | silent => exact .quiet hd houtcome.symm
      | warn => exact .loud hd houtcome.symm

theorem forall₂_tells : List.Forall₂ (s.Tells m) (s.anchors m) (s.scanLog m) := by
  rw [anchors, scanLog, List.forall₂_map_left_iff, List.forall₂_map_right_iff, List.forall₂_same]
  exact fun x hx => s.tells_of_mem_sightings m hx

/-- Each sighting is a finding or a declined anchor, and never both. -/
theorem length_scanLog :
    (s.scanLog m).length = (s.findings m).length + (s.anchors m).countP m.body.declines := by
  have hfindings : (s.findings m).length =
      (s.sightings m).countP fun x => !m.body.declines x.anchor := by
    rw [findings, List.length_filterMap_eq_countP]
    apply List.countP_congr
    intro x hx
    have houtcome := ((s.mem_sightings m).mp hx).1.2
    cases ho : x.outcome with
    | ok ss => simp [Sighting.finding?, Body.declines, Sighting.anchor, ho, ← houtcome]
    | error e => simp [Sighting.finding?, Body.declines, Sighting.anchor, ho, ← houtcome]
  have hdeclined : (s.anchors m).countP m.body.declines =
      (s.sightings m).countP fun x => m.body.declines x.anchor := by
    rw [anchors, List.countP_map]
    rfl
  have hall := (s.sightings m).length_eq_countP_add_countP fun x => m.body.declines x.anchor
  rw [scanLog, List.length_map, hfindings, hdeclined]
  simp only [Bool.not_eq_true, Bool.decide_eq_false] at hall
  omega

theorem accounts : s.Accounts m where
  increasing := s.anchors_pairwise m
  anchors _ _ := s.mem_anchors m
  told := s.forall₂_tells m
  total := s.length_scanLog m

end Account

section TwoRuns
variable (s : Settings) (d : DriftPolicy) (m : Method)

@[simp] theorem enables_withDrift (g : Guard) : (s.withDrift d).enables g = s.enables g := by
  cases g <;> rfl

@[simp] theorem sightings_withDrift : (s.withDrift d).sightings m = s.sightings m := by
  simp only [sightings, enables_withDrift]

@[simp] theorem findings_withDrift : (s.withDrift d).findings m = s.findings m := by
  simp only [findings, sightings_withDrift]

/-- The anchor at a place of the list comes from the sighting there. -/
theorem exists_sighting {k : Nat} {g : Guard} {call : Nat}
    (h : (s.anchors m)[k]? = some (g, call)) :
    ∃ x, (s.sightings m)[k]? = some x ∧ x.outcome = g.spans m.body call := by
  rw [anchors, List.getElem?_map] at h
  obtain ⟨x, hx, hanchor⟩ := Option.map_eq_some_iff.mp h
  have houtcome := ((s.mem_sightings m).mp (List.mem_of_getElem? hx)).1.2
  cases hanchor
  exact ⟨x, hx, houtcome⟩

theorem differInDriftOnly : s.DifferInDriftOnly (s.withDrift d) m where
  findings := s.findings_withDrift d m
  anchors := by rw [anchors, anchors, sightings_withDrift]
  accounts := ⟨s.accounts m, (s.withDrift d).accounts m⟩
  matched k g call ss hk hshape := by
    obtain ⟨x, hx, houtcome⟩ := s.exists_sighting m hk
    rw [Guard.spans_eq_ok_iff.mpr hshape] at houtcome
    have hsame : x.message (s.withDrift d).drift m = x.message s.drift m :=
      Sighting.message_found houtcome _ _ m
    simp only [scanLog, sightings_withDrift, List.getElem?_map, hx, Option.map_some, hsame]
  declined k g call e hk hdeclined := by
    obtain ⟨x, hx, houtcome⟩ := s.exists_sighting m hk
    rw [hdeclined] at houtcome
    obtain ⟨words, hwords⟩ := Sighting.message_declined houtcome s.drift m
    obtain ⟨words', hwords'⟩ := Sighting.message_declined houtcome (s.withDrift d).drift m
    refine ⟨words, words', ?_, ?_⟩
    · rw [scanLog, List.getElem?_map, hx, Option.map_some, hwords]
    · rw [scanLog, sightings_withDrift, List.getElem?_map, hx, Option.map_some, hwords']

end TwoRuns

end Settings
end ComposeGuards
