import ComposeGuards.Guard.SettingsReader
import ComposeGuards.Proofs.Json.Reading
import Mathlib.Data.List.Forall2
import Mathlib.Data.List.Induction
import Mathlib.Data.List.Nodup

/-! # Settings in an object

Each member of an object says something about one field of the settings or nothing about them.
Reading a member adds what it says, and reading members one after another adds what they say in
order. What is added to one field leaves the others as they are, so the settings depend on neither
the order of the members nor those that say nothing. A field that occurs again ends the reading.
-/
namespace ComposeGuards
open Json

theorem DriftPolicy.ofName_key (d : DriftPolicy) : ofName d.key = .ok d := by
  cases d <;> rfl

namespace Settings

/-- What a member of the object says. -/
inductive Member
  | guard (g : Guard) (enabled : Bool)
  | drift (d : DriftPolicy)
  | other

def Member.field? : Member → Option Field
  | guard g _ => some (.guard g)
  | drift _ => some .drift
  | other => none

/-- The fields that members speak of, in order. -/
def fieldsOf (ms : List Member) : List Field :=
  ms.filterMap Member.field?

/-- The members that speak of a field. -/
def known (ms : List Member) : List Member :=
  ms.filter fun m => m.field?.isSome

/-- A policy is spelled by its name, or by an object with its name as the only key. -/
inductive SpellsPolicy (d : DriftPolicy) : List Char → Prop
  | name {ks : List Char} (key : SpellsText ks d.key.toList) : SpellsPolicy d ('"' :: ks)
  | tagged {ws ks ws₁ ws₂ ws₃ : List Char} (gap : Gap ws) (key : SpellsText ks d.key.toList)
      (gap₁ : Gap ws₁) (gap₂ : Gap ws₂) (gap₃ : Gap ws₃) :
      SpellsPolicy d ('\x7b' ::
        (ws ++ '"' :: (ks ++ (ws₁ ++ ':' :: (ws₂ ++ ("null".toList ++ (ws₃ ++ ['\x7d'])))))))

/-- What a key and the spelling of a value say. -/
inductive Describes : String × List Char → Member → Prop
  | guard (g : Guard) (b : Bool) : Describes (g.key, (toString b).toList) (.guard g b)
  | drift {d : DriftPolicy} {v : List Char} (policy : SpellsPolicy d v) :
      Describes (Field.drift.key, v) (.drift d)
  | other {name : String} {v : List Char} (unknown : ∀ f : Field, name ≠ f.key) :
      Describes (name, v) .other

/-- Settings with every field as the members give it, and as usual where they do not. -/
structure Gives (ms : List Member) (s : Settings) : Prop where
  guard : ∀ g b, .guard g b ∈ ms → s.enables g = b
  guardUnsaid : ∀ g, (∀ b, .guard g b ∉ ms) → s.enables g = true
  drift : ∀ d, .drift d ∈ ms → s.drift = d
  driftUnsaid : (∀ d, .drift d ∉ ms) → s.drift = .silent

/-! ## Keys -/

theorem ofKey?_key (f : Field) : Field.ofKey? f.key = some f := by
  cases f with
  | guard g => cases g <;> decide
  | drift => decide

theorem ofKey?_eq_none {name : String} (h : ∀ f : Field, name ≠ f.key) :
    Field.ofKey? name = none := by
  rw [Field.ofKey?, List.find?_eq_none]
  intro f _ hf
  exact h f (by simpa [eq_comm] using hf)

section Reading
variable {p : Reading} {lead ks ws ws' v cs rest : List Char} {name : String} {m : Member}
  {ms : List Member} {kvs : List (String × List Char)} {isFirst : Bool}

/-! ## One member -/

theorem readPolicy_gap {d : DriftPolicy} (h : Gap ws) (hv : SpellsPolicy d v) (cs : List Char) :
    DriftPolicy.read (ws ++ (v ++ cs)) = .ok (d, cs) := by
  cases hv with
  | name key =>
    rw [List.cons_append, DriftPolicy.read, skipBlank_gap_cons h (by decide)]
    simp [bind, Except.bind, readText_of_spells key, DriftPolicy.ofName_key, pure, Except.pure]
  | tagged gap key gap₁ gap₂ gap₃ =>
    rw [List.cons_append, DriftPolicy.read, skipBlank_gap_cons h (by decide)]
    simp only [List.append_assoc, List.cons_append, List.nil_append]
    rw [DriftPolicy.readTagged, skipBlank_gap_cons gap (by decide)]
    simp only [bind, Except.bind, readText_of_spells key, DriftPolicy.ofName_key,
      readMark_gap gap₁ (show isBlank ':' = false by decide), readUnit_gap gap₂,
      readMark_gap gap₃ (show isBlank '\x7d' = false by decide), pure, Except.pure]

/-- The reading after one more member. -/
def Reading.add (p : Reading) : Member → Reading
  | .guard g enabled => ⟨p.settings.set enabled g, .guard g :: p.seen, false⟩
  | .drift d => ⟨{ p.settings with drift := d }, .drift :: p.seen, false⟩
  | .other => { p with isFirst := false }

theorem isFirst_add (p : Reading) (m : Member) : (p.add m).isFirst = false := by
  cases m <;> rfl

theorem mem_seen_add {f : Field} : f ∈ (p.add m).seen ↔ m.field? = some f ∨ f ∈ p.seen := by
  cases m <;> simp [Reading.add, Member.field?, eq_comm]

theorem readMember_of_describes (hs : Describes (name, v) m) (hv : IsJson .value v)
    (hfresh : ∀ f ∈ m.field?, f ∉ p.seen) (hgap : Gap ws) (hgap' : Gap ws')
    (hr : Delimits rest) :
    readMember p name (ws ++ ':' :: (ws' ++ (v ++ rest))) = .ok (p.add m, rest) := by
  have hcolon := readMark_gap hgap (show isBlank ':' = false by decide) (ws' ++ (v ++ rest))
  cases hs with
  | guard g b =>
    have hseen : Field.guard g ∉ p.seen := hfresh _ rfl
    have hkey : Field.ofKey? g.key = some (.guard g) := ofKey?_key (.guard g)
    simp [readMember, hkey, hseen, hcolon, readField, readBool_gap hgap', bind, Except.bind, pure,
      Except.pure, Reading.add]
  | drift policy =>
    have hseen : Field.drift ∉ p.seen := hfresh _ rfl
    simp [readMember, ofKey?_key, hseen, hcolon, readField, readPolicy_gap hgap' policy, bind,
      Except.bind, pure, Except.pure, Reading.add]
  | other unknown =>
    simp [readMember, ofKey?_eq_none unknown, hcolon, skipValue_of_isJson hv hgap' hr, bind,
      Except.bind, pure, Except.pure, Reading.add]

theorem memberStep_of_describes (hl : Leads p.isFirst lead) (hk : SpellsText ks name.toList)
    (hs : Describes (name, v) m) (hv : IsJson .value v) (hfresh : ∀ f ∈ m.field?, f ∉ p.seen)
    (hgap : Gap ws) (hgap' : Gap ws') (hr : Delimits rest) :
    memberStep p (lead ++ '"' :: (ks ++ (ws ++ ':' :: (ws' ++ (v ++ rest))))) =
      .ok (.inl (p.add m), rest) := by
  rw [memberStep, readKey?_lead hl hk]
  simp [bind, Except.bind, readMember_of_describes hs hv hfresh hgap hgap' hr, pure, Except.pure]

/-- A field that has occurred ends the reading with the key, whatever follows. -/
theorem memberStep_of_seen {f : Field} (hl : Leads p.isFirst lead)
    (hk : SpellsText ks f.key.toList) (hf : f ∈ p.seen) (cs : List Char) :
    memberStep p (lead ++ '"' :: (ks ++ cs)) = .error (.mismatch (.duplicateField f.key)) := by
  rw [memberStep, readKey?_lead hl hk]
  simp [bind, Except.bind, readMember, ofKey?_key, hf]

/-! ## Members one after another -/

theorem mem_fieldsOf_cons {f : Field} :
    f ∈ fieldsOf (m :: ms) ↔ m.field? = some f ∨ f ∈ fieldsOf ms := by
  simp [fieldsOf]

theorem nodup_fieldsOf_cons (h : (fieldsOf (m :: ms)).Nodup) :
    (∀ f ∈ m.field?, f ∉ fieldsOf ms) ∧ (fieldsOf ms).Nodup := by
  cases hm : m.field? with
  | none =>
    rw [fieldsOf, List.filterMap_cons_none hm] at h
    exact ⟨fun f hf => (by cases hf), h⟩
  | some g =>
    rw [fieldsOf, List.filterMap_cons_some hm, List.nodup_cons] at h
    refine ⟨fun f hf => ?_, h.2⟩
    cases hf
    exact h.1

theorem isFirst_foldl_add (hne : ms ≠ []) (p : Reading) :
    (ms.foldl Reading.add p).isFirst = false := by
  obtain ⟨init, last, rfl⟩ := (List.eq_nil_or_concat ms).resolve_left hne
  rw [List.concat_eq_append, List.foldl_append]
  exact isFirst_add _ last

theorem mem_seen_foldl_add {f : Field} :
    f ∈ (ms.foldl Reading.add p).seen ↔ f ∈ fieldsOf ms ∨ f ∈ p.seen := by
  induction ms generalizing p with
  | nil => simp [fieldsOf]
  | cons m ms ih =>
    rw [List.foldl_cons, ih, mem_seen_add, mem_fieldsOf_cons]
    tauto

/-- The members are read in order, as long as no field occurs twice. -/
theorem iterate_members (h : HasMembers isFirst cs kvs) (hfirst : p.isFirst = isFirst)
    (hs : List.Forall₂ Describes kvs ms) (hnodup : (fieldsOf ms).Nodup)
    (hfresh : ∀ f ∈ fieldsOf ms, f ∉ p.seen) (hr : Delimits rest) :
    iterate memberStep p (cs ++ rest) = iterate memberStep (ms.foldl Reading.add p) rest := by
  induction h generalizing p ms with
  | done =>
    cases hs
    rfl
  | @member isFirst lead ks ws ws' v cs name kvs leads key gap gap' value next ih =>
    cases hs with
    | @cons _ m _ ms described hs =>
      obtain ⟨hother, hnodup⟩ := nodup_fieldsOf_cons hnodup
      have hm : ∀ f ∈ m.field?, f ∉ p.seen :=
        fun f hf => hfresh f (mem_fieldsOf_cons.mpr (.inl hf))
      have hms : ∀ f ∈ fieldsOf ms, f ∉ (p.add m).seen := by
        intro f hf hseen
        rcases mem_seen_add.mp hseen with hsaid | hseen
        · exact hother f hsaid hf
        · exact hfresh f (mem_fieldsOf_cons.mpr (.inr hf)) hseen
      rw [← hfirst] at leads
      have hstep := memberStep_of_describes leads key described value hm gap gap' (next.isJson.delimits hr)
      have hsrc : lead ++ '"' :: (ks ++ (ws ++ ':' :: (ws' ++ (v ++ cs)))) ++ rest =
          lead ++ '"' :: (ks ++ (ws ++ ':' :: (ws' ++ (v ++ (cs ++ rest))))) := by simp
      rw [hsrc, iterate_step hstep (by simp; omega)]
      exact ih (isFirst_add p m) hs hnodup hms

/-! ## What the settings hold -/

/-- What only members of one field change is as the last of them leaves it. -/
theorem foldl_add_of_not_mem {α : Type} (look : Settings → α) {f : Field}
    (hlook : ∀ (q : Reading) (m : Member), m.field? ≠ some f →
      look (q.add m).settings = look q.settings)
    (hf : f ∉ fieldsOf ms) : look (ms.foldl Reading.add p).settings = look p.settings := by
  induction ms generalizing p with
  | nil => rfl
  | cons m ms ih =>
    rw [mem_fieldsOf_cons, not_or] at hf
    rw [List.foldl_cons, ih hf.2, hlook p m hf.1]

theorem foldl_add_of_mem {α : Type} (look : Settings → α) {f : Field} {a : α}
    (hlook : ∀ (q : Reading) (m : Member), m.field? ≠ some f →
      look (q.add m).settings = look q.settings)
    (hm : m ∈ ms) (hf : m.field? = some f) (ha : ∀ q : Reading, look (q.add m).settings = a)
    (hnodup : (fieldsOf ms).Nodup) : look (ms.foldl Reading.add p).settings = a := by
  induction ms generalizing p with
  | nil => cases hm
  | cons n ms ih =>
    obtain ⟨hother, hnodup⟩ := nodup_fieldsOf_cons hnodup
    rw [List.foldl_cons]
    rcases List.mem_cons.mp hm with rfl | hm
    · rw [foldl_add_of_not_mem look hlook (hother f hf), ha p]
    · exact ih hm hnodup

theorem enables_add_of_ne {g : Guard} (q : Reading) (m : Member)
    (h : m.field? ≠ some (.guard g)) : (q.add m).settings.enables g = q.settings.enables g := by
  cases m with
  | guard g' b =>
    have hne : g' ≠ g := by
      rintro rfl
      exact h rfl
    simp [Reading.add, enables_set, hne]
  | drift d => cases g <;> rfl
  | other => rfl

theorem drift_add_of_ne (q : Reading) (m : Member) (h : m.field? ≠ some .drift) :
    (q.add m).settings.drift = q.settings.drift := by
  cases m with
  | guard g b => cases g <;> rfl
  | drift d => exact absurd rfl h
  | other => rfl

theorem guard_mem_fieldsOf_iff {g : Guard} :
    .guard g ∈ fieldsOf ms ↔ ∃ b, .guard g b ∈ ms := by
  simp only [fieldsOf, List.mem_filterMap]
  constructor
  · rintro ⟨m, hm, hf⟩
    cases m <;> cases hf
    exact ⟨_, hm⟩
  · rintro ⟨b, hb⟩
    exact ⟨_, hb, rfl⟩

theorem drift_mem_fieldsOf_iff : .drift ∈ fieldsOf ms ↔ ∃ d, .drift d ∈ ms := by
  simp only [fieldsOf, List.mem_filterMap]
  constructor
  · rintro ⟨m, hm, hf⟩
    cases m <;> cases hf
    exact ⟨_, hm⟩
  · rintro ⟨d, hd⟩
    exact ⟨_, hd, rfl⟩

theorem gives_foldl_add (hnodup : (fieldsOf ms).Nodup) :
    Gives ms (ms.foldl Reading.add {}).settings where
  guard g b hm := by
    have hadd : ∀ q : Reading, (q.add (.guard g b)).settings.enables g = b := by
      intro q
      simp [Reading.add, enables_set]
    exact foldl_add_of_mem (fun s => s.enables g) enables_add_of_ne hm rfl hadd hnodup
  guardUnsaid g hno := by
    have hg : .guard g ∉ fieldsOf ms := by simpa [guard_mem_fieldsOf_iff] using hno
    have hstart : (ms.foldl Reading.add {}).settings.enables g = ({} : Settings).enables g :=
      foldl_add_of_not_mem (fun s => s.enables g) enables_add_of_ne hg
    rw [hstart]
    cases g <;> rfl
  drift d hm := foldl_add_of_mem (fun s => s.drift) drift_add_of_ne hm rfl (fun _ => rfl) hnodup
  driftUnsaid hno := by
    have hd : .drift ∉ fieldsOf ms := by simpa [drift_mem_fieldsOf_iff] using hno
    exact foldl_add_of_not_mem (fun s => s.drift) drift_add_of_ne hd

theorem mem_known_iff : m ∈ known ms ↔ m ∈ ms ∧ m.field?.isSome = true :=
  List.mem_filter

theorem fieldsOf_known (ms : List Member) : fieldsOf (known ms) = fieldsOf ms := by
  induction ms with
  | nil => rfl
  | cons m ms ih =>
    unfold fieldsOf known at ih ⊢
    cases hm : m.field? <;> simp [hm, ih]

/-- Settings are determined by the members that speak of a field, in whatever order. -/
theorem Gives.unique {ms' : List Member} {s s' : Settings} (h : Gives ms s) (h' : Gives ms' s')
    (hperm : (known ms).Perm (known ms')) : s = s' := by
  have hmem : ∀ m : Member, m.field?.isSome = true → (m ∈ ms ↔ m ∈ ms') := by
    intro m hm
    have hknown := hperm.mem_iff (a := m)
    simpa [mem_known_iff, hm] using hknown
  have hguard : ∀ g, s.enables g = s'.enables g := by
    intro g
    by_cases hg : ∃ b, .guard g b ∈ ms
    · obtain ⟨b, hb⟩ := hg
      rw [h.guard g b hb, h'.guard g b ((hmem _ rfl).mp hb)]
    · have hno : ∀ b, .guard g b ∉ ms := fun b hb => hg ⟨b, hb⟩
      rw [h.guardUnsaid g hno, h'.guardUnsaid g fun b hb => hno b ((hmem _ rfl).mpr hb)]
  have hdrift : s.drift = s'.drift := by
    by_cases hd : ∃ d, .drift d ∈ ms
    · obtain ⟨d, hd⟩ := hd
      rw [h.drift d hd, h'.drift d ((hmem _ rfl).mp hd)]
    · have hno : ∀ d, .drift d ∉ ms := fun d hm => hd ⟨d, hm⟩
      rw [h.driftUnsaid hno, h'.driftUnsaid fun d hm => hno d ((hmem _ rfl).mpr hm)]
  have hskip : s.skip = s'.skip := hguard .skip
  have hscope : s.scope = s'.scope := hguard .scope
  have htrace : s.trace = s'.trace := hguard .trace
  cases s
  cases s'
  simp_all

end Reading

/-! ## Whole texts -/

section Texts
variable {text : String} {kvs : List (String × List Char)} {ms : List Member}

theorem read_opening {ws : List Char} (h : Gap ws) (cs : List Char) :
    read (ws ++ '\x7b' :: cs) = iterate memberStep {} cs := by
  rw [read, skipBlank_gap_cons h (by decide)]
  rfl

/-- Where no field occurs twice, what is read is what the members add. -/
theorem ofJson_of_isObject (h : IsObject text.toList kvs) (hs : List.Forall₂ Describes kvs ms)
    (hnodup : (fieldsOf ms).Nodup) : ofJson text = .ok (ms.foldl Reading.add {}).settings := by
  generalize htext : text.toList = cs at h
  cases h with
  | @object ws cs ws' ws'' kvs gap members gap' gap'' =>
    have hend : Delimits (ws' ++ '\x7d' :: ws'') :=
      delimits_gap_append gap' (delimits_closing .object ws'')
    have hclose : memberStep (ms.foldl Reading.add {}) (ws' ++ '\x7d' :: ws'') =
        .ok (.inr (ms.foldl Reading.add {}).settings, ws'') := by
      rw [memberStep, readKey?_closing gap']
      rfl
    have hread : read text.toList = .ok ((ms.foldl Reading.add {}).settings, ws'') := by
      rw [htext, read_opening gap,
        iterate_members members rfl hs hnodup (fun _ _ hf => by cases hf) hend, iterate_done hclose]
    simp [ofJson, readDocument, hread, readEnd_gap gap'', bind, Except.bind, pure, Except.pure]

/-- A field that occurs again ends the reading of the text. -/
theorem ofJson_of_recurs {f : Field} {v : List Char} {after : List (String × List Char)}
    (h : IsObject text.toList (kvs ++ (f.key, v) :: after))
    (hs : List.Forall₂ Describes kvs ms) (hnodup : (fieldsOf ms).Nodup) (hf : f ∈ fieldsOf ms) :
    ofJson text = .error (.mismatch (.duplicateField f.key)) := by
  generalize htext : text.toList = cs at h
  generalize hall : kvs ++ (f.key, v) :: after = all at h
  cases h with
  | @object ws cs ws' ws'' all gap members gap' gap'' =>
    subst hall
    have hms : ms ≠ [] := by
      rintro rfl
      cases hf
    have hkvs : kvs ≠ [] := by
      rintro rfl
      cases hs
      exact hms rfl
    obtain ⟨cs₁, cs₂, rfl, hbefore, hagain⟩ := members.exists_append hkvs
    have hfirst := isFirst_foldl_add hms {}
    have hseen : f ∈ (ms.foldl Reading.add {}).seen := mem_seen_foldl_add.mpr (.inl hf)
    have hrest : Delimits (cs₂ ++ (ws' ++ '\x7d' :: ws'')) :=
      hagain.isJson.delimits (delimits_gap_append gap' (delimits_closing .object ws''))
    have hread : read text.toList = .error (.mismatch (.duplicateField f.key)) := by
      rw [htext, read_opening gap, List.append_assoc,
        iterate_members hbefore rfl hs hnodup (fun _ _ hf => by cases hf) hrest]
      cases hagain with
      | @member isFirst lead ks ws₁ ws₂ v cs name kvs leads key =>
        rw [← hfirst] at leads
        have hstep := memberStep_of_seen leads key hseen
        rw [List.append_assoc, List.cons_append, List.append_assoc, iterate, hstep]
    simp [ofJson, readDocument, hread, bind, Except.bind]

theorem exists_recurs (h : ¬ (fieldsOf ms).Nodup) :
    ∃ before m after f, ms = before ++ m :: after ∧ (fieldsOf before).Nodup ∧
      m.field? = some f ∧ f ∈ fieldsOf before := by
  induction ms using List.reverseRecOn with
  | nil => exact absurd List.nodup_nil h
  | append_singleton ms m ih =>
    by_cases hnodup : (fieldsOf ms).Nodup
    · cases hm : m.field? with
      | none =>
        refine absurd hnodup ?_
        simpa [fieldsOf, hm] using h
      | some f =>
        refine ⟨ms, m, [], f, rfl, hnodup, hm, ?_⟩
        by_contra hno
        refine h ?_
        rw [fieldsOf, List.filterMap_append, List.filterMap_cons_some hm, List.filterMap_nil,
          ← List.concat_eq_append]
        exact hnodup.concat hno
    · obtain ⟨before, n, after, f, rfl, hrest⟩ := ih hnodup
      exact ⟨before, n, after ++ [m], f, by simp, hrest⟩

theorem Describes.key_eq {name : String} {v : List Char} {m : Member} {f : Field}
    (h : Describes (name, v) m) (hf : m.field? = some f) : name = f.key := by
  cases h <;> cases hf <;> rfl

theorem exists_of_describes_append {before after : List Member} {m : Member} {f : Field}
    (hs : List.Forall₂ Describes kvs (before ++ m :: after)) (hm : m.field? = some f) :
    ∃ kvs₁ v kvs₂, kvs = kvs₁ ++ (f.key, v) :: kvs₂ ∧ List.Forall₂ Describes kvs₁ before := by
  have hbefore := List.forall₂_take_append kvs before (m :: after) hs
  have hbehind := List.forall₂_drop_append kvs before (m :: after) hs
  have hkvs := List.take_append_drop before.length kvs
  generalize kvs.drop before.length = behind at hbehind hkvs
  cases hbehind with
  | @cons kv _ rest _ hdescribes _ =>
    obtain ⟨name, v⟩ := kv
    exact ⟨kvs.take before.length, v, rest, by rw [← hdescribes.key_eq hm, hkvs], hbefore⟩

/-- An object is read field by field: what its members say is found in the settings, and what they
do not say is as usual there. So the order of the members does not matter, nor do members with
other keys, whatever their values hold. If fields occur again, the fault names the first to do so,
whatever stands behind its key. -/
theorem object_read_field_by_field {text : String} {kvs : List (String × List Char)}
    {ms : List Member} (hs : List.Forall₂ Describes kvs ms) :
    (IsObject text.toList kvs → (fieldsOf ms).Nodup →
      ∃ s, ofJson text = .ok s ∧ Gives ms s ∧
        ∀ (text' : String) kvs' ms', IsObject text'.toList kvs' →
          List.Forall₂ Describes kvs' ms' → (known ms).Perm (known ms') → ofJson text' = .ok s) ∧
    (IsObject text.toList kvs → ¬ (fieldsOf ms).Nodup →
      ∃ before m after f, ms = before ++ m :: after ∧ (fieldsOf before).Nodup ∧
        m.field? = some f ∧ f ∈ fieldsOf before ∧
        ofJson text = .error (.mismatch (.duplicateField f.key))) ∧
    ∀ (f : Field) (v : List Char) (after : List (String × List Char)),
      IsObject text.toList (kvs ++ (f.key, v) :: after) → (fieldsOf ms).Nodup →
        f ∈ fieldsOf ms → ofJson text = .error (.mismatch (.duplicateField f.key)) := by
  refine ⟨?_, ?_, ?_⟩
  · intro h hnodup
    have hgives := gives_foldl_add hnodup
    refine ⟨_, ofJson_of_isObject h hs hnodup, hgives, ?_⟩
    intro text' kvs' ms' h' hs' hperm
    have hfields : (fieldsOf ms).Perm (fieldsOf ms') := by
      rw [← fieldsOf_known ms, ← fieldsOf_known ms']
      exact hperm.filterMap _
    have hnodup' := hfields.nodup_iff.mp hnodup
    rw [ofJson_of_isObject h' hs' hnodup', hgives.unique (gives_foldl_add hnodup') hperm]
  · intro h hagain
    obtain ⟨before, m, after, f, rfl, hnodup, hm, hf⟩ := exists_recurs hagain
    obtain ⟨kvs₁, v, kvs₂, rfl, hbefore⟩ := exists_of_describes_append hs hm
    exact ⟨before, m, after, f, rfl, hnodup, hm, hf, ofJson_of_recurs h hbefore hnodup hf⟩
  · intro f v after h hnodup hf
    exact ofJson_of_recurs h hs hnodup hf

/-- A value with a closing brace in a key is passed over, and a key may be spelled with escapes. -/
theorem object_read_field_by_field_escaped_key :
    (∃ s, ofJson
          "\x7b \"x\": [\x7b\"\x7d\": -1.5e+3\x7d] ,\"dr\\u0069ft\":\"warn\"\x7d" = .ok s ∧
        Gives [.other, .drift .warn] s ∧ ofJson "\x7b\"drift\":\"warn\"\x7d" = .ok s) ∧
      ofJson "\x7b\"drift\":\"warn\",\"drift\":1\x7d" =
        .error (.mismatch (.duplicateField "drift")) := by
  have hgap : Gap [] := by decide
  have hspace : Gap [' '] := by decide
  have hunknown : ∀ f : Field, "x" ≠ f.key := by
    intro f
    cases f with
    | guard g => cases g <;> decide
    | drift => decide
  have hdrift : SpellsText "drift\"".toList "drift".toList :=
    spellsText_plain "drift".toList (by simp)
  have hwarn : SpellsText "warn\"".toList "warn".toList :=
    spellsText_plain "warn".toList (by simp)
  have hpolicy : SpellsPolicy .warn "\"warn\"".toList := .name hwarn
  have hft : SpellsText "ft\"".toList "ft".toList :=
    spellsText_plain "ft".toList (by simp)
  have hescaped : SpellsText "dr\\u0069ft\"".toList "drift".toList :=
    .char (by decide) (by decide) (by decide) (.char (by decide) (by decide) (by decide)
      (.unit (n := 0x69) (by decide) (by decide) (by decide) hft))
  have hnumber : IsMagnitude "1.5e+3".toList :=
    .parts (.digits (by decide) (show IsDigits ['1'] by decide))
      (.point (show IsDigits ['5'] by decide))
      (.scale (.inl rfl) (.inr (.inl rfl)) (show IsDigits ['3'] by decide))
  have hbrace : SpellsText "\x7d\"".toList "\x7d".toList :=
    spellsText_plain "\x7d".toList (by simp)
  have hinner : IsJson .value "\x7b\"\x7d\": -1.5e+3\x7d".toList :=
    .nested (b := .object)
      (.member (.first hgap) hbrace.isText hgap hspace (.scalar (.minus hnumber)) .done) hgap
  have houter : IsJson .value "[\x7b\"\x7d\": -1.5e+3\x7d]".toList :=
    .nested (b := .array) (.item (.first hgap) hinner .done) hgap
  have hname : IsJson .value "\"warn\"".toList := .scalar (.text hwarn.isText)
  have hx : SpellsText "x\"".toList "x".toList :=
    spellsText_plain "x".toList (by simp)
  have hlong : IsObject
      "\x7b \"x\": [\x7b\"\x7d\": -1.5e+3\x7d] ,\"dr\\u0069ft\":\"warn\"\x7d".toList
      [("x", "[\x7b\"\x7d\": -1.5e+3\x7d]".toList), ("drift", "\"warn\"".toList)] :=
    .object hgap (.member (.first hspace) hx hgap hspace houter
      (.member (.comma hspace hgap) hescaped hgap hgap hname .done)) hgap hgap
  have hshort : IsObject "\x7b\"drift\":\"warn\"\x7d".toList
      [("drift", "\"warn\"".toList)] :=
    .object hgap (.member (.first hgap) hdrift hgap hgap hname .done) hgap hgap
  have hone : IsJson .value ['1'] :=
    .scalar (.number (.parts (.digits (by decide) (show IsDigits ['1'] by decide)) .none .none))
  have hagain : IsObject "\x7b\"drift\":\"warn\",\"drift\":1\x7d".toList
      [("drift", "\"warn\"".toList), ("drift", ['1'])] :=
    .object hgap (.member (.first hgap) hdrift hgap hgap hname
      (.member (.comma hgap hgap) hdrift hgap hgap hone .done)) hgap hgap
  have hsaid : List.Forall₂ Describes [("drift", "\"warn\"".toList)] [.drift .warn] :=
    .cons (.drift hpolicy) .nil
  obtain ⟨s, hread, hgives, hsame⟩ :=
    (object_read_field_by_field (.cons (.other hunknown) hsaid)).1 hlong (by decide)
  refine ⟨⟨s, hread, hgives, hsame _ _ _ hshort hsaid (.refl _)⟩, ?_⟩
  exact (object_read_field_by_field hsaid).2.2 .drift ['1'] [] hagain (by decide) (by decide)

end Texts
end Settings
end ComposeGuards
