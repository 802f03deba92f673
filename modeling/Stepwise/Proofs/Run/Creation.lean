-- SUMMARY: A step that creates objects decides exactly between creating one and asking an agent.
import Stepwise.Proofs.Run.Effect
import Stepwise.Proofs.Run.Reentry
import Stepwise.Proofs.Template.Replacement
import Stepwise.Proofs.Workflow.Names

/-!
# Creating objects

The properties of a new object are divided in order: those that can be filled now, and those
that are pending because their mapping is empty, holds a `null`, or has an expression that
addresses nothing. If none is pending the tool is called once, and with the fillings of all. If
some are, no tool is called and the run is paused: the payload describes the pending properties
and holds the fillings of the others. What has to be written out as text must be fit for it;
else the step fails, as any step does.
-/

namespace Stepwise

variable {σ : Type}

/-! ## Work that gives an answer -/

namespace StepM

variable {α : Type} {s : Situation σ} {a : α}

theorem look_of_ok {f : Context → Except Fault α} (h : f s.context = .ok a) :
    look f s = (.ok a, s) := by
  rw [look, h]
  rfl

theorem lift_of_ok {answer : Except Fault α} (h : answer = .ok a) :
    lift answer s = (.ok a, s) := by
  rw [h]
  rfl

/-- What holds at both ways to end holds of where work ends. -/
theorem wp_end {m : StepM σ α} {P : Situation σ → Prop} (h : wp m (fun _ => P) (fun _ => P) s) :
    P (m s).2 := by
  unfold wp at h
  split at h
  · rename_i heq
    rwa [heq]
  · rename_i heq
    rwa [heq]

theorem ask_of_ok {question : Ask σ α} {o : σ} (h : question s.outside = (.ok a, o)) :
    ask question s = (.ok a, { s with outside := o }) := by
  unfold ask
  rw [h]

end StepM

theorem StepLabel.requireCollaborator_some {α : Type} (label : StepLabel) (collaborator : String)
    (a : α) : label.requireCollaborator (σ := σ) collaborator (some a) = pure a := rfl

namespace Creation

open Template (Looks Writes)

/-! ## The division -/

/-- The mapping is left for an agent to fill. -/
def IsPending (c : Context) (mapping : Value) : Prop :=
  mapping = .str "" ∨ mapping.HoldsNull ∨
    ∃ path ∈ Template.references mapping, Template.resolve c path = .ok .null

/-- Mappings divided in order: properties filled with what their expressions address, and the keys of
those that are pending. -/
inductive Divided (c : Context) : Dict → Dict → List Key → Prop
  | nil : Divided c [] [] []
  | prefilled {key : Key} {mapping v : Value} {rest prefilled : Dict} {pending : List Key} :
    ¬ IsPending c mapping → Template.Replaced c mapping v → Divided c rest prefilled pending →
    Divided c ((key, mapping) :: rest) ((key, v) :: prefilled) pending
  | pending {key : Key} {mapping : Value} {rest prefilled : Dict} {pending : List Key} :
    IsPending c mapping → Divided c rest prefilled pending →
    Divided c ((key, mapping) :: rest) prefilled (key :: pending)

section Division

variable {c : Context} {mappings prefilled : Dict} {pending : List Key} {mapping : Value}

theorem not_isPending : ¬ IsPending c mapping ↔ mapping ≠ .str "" ∧ ¬ mapping.HoldsNull ∧
    Template.Finds c (Template.references mapping) := by
  unfold IsPending Template.Finds
  simp only [not_or, not_exists, not_and]

/-- The check of a mapping tells whether it is pending. -/
theorem tells_isReady (hlook : Looks c (Template.references mapping)) :
    Template.Tells (isReady c mapping) (¬ IsPending c mapping) := by
  unfold isReady
  by_cases hempty : mapping = .str ""
  · rw [if_pos (by simp [hempty])]
    exact ⟨false, rfl, iff_of_false Bool.false_ne_true fun h => h (.inl hempty)⟩
  · rw [if_neg (by simpa using hempty)]
    refine (Template.tells_isFillable mapping hlook).congr ?_
    rw [not_isPending]
    exact ⟨fun h => ⟨hempty, h⟩, And.right⟩

/-- Mappings are divided as they should be. -/
theorem divide_divided (hlook : Looks c (Template.referencesEntries mappings))
    (hwrite : ∀ e ∈ mappings, ¬ IsPending c e.2 → Writes c (Template.embedded e.2)) :
    ∃ division, divide c mappings = .ok division ∧
      Divided c mappings division.prefilled division.pending := by
  induction mappings with
  | nil => exact ⟨{}, rfl, .nil⟩
  | cons e rest ih =>
    obtain ⟨key, mapping⟩ := e
    obtain ⟨hwrites, hrest⟩ := List.forall_mem_cons.1 hwrite
    obtain ⟨division, hdivision, hdivided⟩ := ih hlook.right hrest
    obtain ⟨ready, hready, htells⟩ := tells_isReady hlook.left
    rw [divide, hready, Checks.ok_bind]
    cases ready with
    | true =>
      have hnot : ¬ IsPending c mapping := htells.1 rfl
      obtain ⟨v, hv, hreplaced⟩ := Template.fills_fill mapping hlook.left (hwrites hnot)
      rw [if_pos rfl, hv, Checks.ok_bind, hdivision]
      exact ⟨_, rfl, .prefilled hnot (hreplaced (not_isPending.1 hnot).2.2) hdivided⟩
    | false =>
      have hpending : IsPending c mapping := by
        by_contra hnot
        cases htells.2 hnot
      rw [if_neg Bool.false_ne_true, hdivision]
      exact ⟨_, rfl, .pending hpending hdivided⟩

namespace Divided

/-- The properties that are filled and those that are pending are all of them. -/
theorem perm (h : Divided c mappings prefilled pending) :
    (Dict.keys prefilled ++ pending).Perm (Dict.keys mappings) := by
  induction h with
  | nil => exact .nil
  | prefilled _ _ _ ih => exact ih.cons _
  | pending _ _ ih => exact List.perm_middle.trans (ih.cons _)

theorem disjoint (h : Divided c mappings prefilled pending) (hkeys : (Dict.keys mappings).Nodup) :
    ∀ key ∈ pending, key ∉ Dict.keys prefilled := by
  have hnodup := h.perm.nodup_iff.2 hkeys
  intro key hpending hprefilled
  exact List.disjoint_of_nodup_append hnodup hprefilled hpending

/-- What is pending is so because of its mapping. -/
theorem isPending (h : Divided c mappings prefilled pending) {key : Key} (hkey : key ∈ pending) :
    ∃ mapping, (key, mapping) ∈ mappings ∧ IsPending c mapping := by
  induction h with
  | nil => cases hkey
  | prefilled _ _ _ ih =>
    obtain ⟨mapping, hmem, hpending⟩ := ih hkey
    exact ⟨mapping, List.mem_cons_of_mem _ hmem, hpending⟩
  | pending hpending _ ih =>
    rcases List.mem_cons.1 hkey with rfl | hkey
    · exact ⟨_, List.mem_cons_self, hpending⟩
    · obtain ⟨mapping, hmem, hpending⟩ := ih hkey
      exact ⟨mapping, List.mem_cons_of_mem _ hmem, hpending⟩

theorem mem_keys (h : Divided c mappings prefilled pending) {key : Key} (hkey : key ∈ pending) :
    key ∈ Dict.keys mappings := h.perm.subset (List.mem_append_right _ hkey)

end Divided

end Division

/-! ## The rows of a template -/

/-- The schema is that of the property with the given key, by one of the template's rows. -/
def Describes (rows : List Value) (key : Key) (schema : PropertySchema) : Prop :=
  schema.key = key.toValue ∧
    ∃ row : Dict, .dict row ∈ rows ∧ PropertySchema.isProperty row = true ∧ schema = .ofRow row

/-- The rows are dictionaries, and those of properties have keys. -/
def AreRows (rows : List Value) : Prop :=
  ∀ v ∈ rows, ∃ row : Dict, v = .dict row ∧
    (PropertySchema.isProperty row = true → ∃ key, (row.field "key").toKey = .ok key)

/-- The properties of a template, each with its key. -/
def IsIndex (rows : List Value) (index : List (Key × PropertySchema)) : Prop :=
  ∀ e ∈ index, Describes rows e.1 e.2

theorem Describes.mono {rows : List Value} {key : Key} {schema : PropertySchema}
    (h : Describes rows key schema) (v : Value) : Describes (v :: rows) key schema := by
  obtain ⟨hkey, row, hrow, hproperty, hschema⟩ := h
  exact ⟨hkey, row, List.mem_cons_of_mem _ hrow, hproperty, hschema⟩

/-- The index of a template's rows describes its properties, and finds every one of them. -/
theorem indexRows_isIndex {rows : List Value} (h : AreRows rows) :
    ∃ index, indexRows rows = .ok index ∧ IsIndex rows index ∧
      ∀ row : Dict, .dict row ∈ rows → PropertySchema.isProperty row = true →
        ∀ key, (row.field "key").toKey = .ok key → index.any (fun e => key.same e.1) = true := by
  induction rows with
  | nil => exact ⟨[], rfl, nofun, nofun⟩
  | cons v rest ih =>
    obtain ⟨⟨row, rfl, hrow⟩, hrest⟩ := List.forall_mem_cons.1 h
    obtain ⟨index, hindex, hdescribes, hfinds⟩ := ih hrest
    have hrow? : PropertySchema.ofRow? (.dict row)
        = .ok (if PropertySchema.isProperty row then some (.ofRow row) else none) := rfl
    cases hproperty : PropertySchema.isProperty row with
    | false =>
      refine ⟨index, ?_, fun e he => (hdescribes e he).mono _, ?_⟩
      · rw [indexRows, hrow?, hproperty]
        exact hindex
      · rintro row' (_ | ⟨_, hmem⟩) hproperty'
        · simp [hproperty] at hproperty'
        · exact hfinds row' hmem hproperty'
    | true =>
      obtain ⟨key, hkey⟩ := hrow hproperty
      have hown : Describes (.dict row :: rest) key (.ofRow row) :=
        ⟨(Value.toValue_of_toKey? _ (Checks.toKey_iff.1 hkey)).symm, row, List.mem_cons_self,
          hproperty, rfl⟩
      cases hany : index.any fun e => key.same e.1 with
      | true =>
        -- A later row has the key already.
        refine ⟨index, ?_, fun e he => (hdescribes e he).mono _, ?_⟩
        · rw [indexRows, hrow?, hproperty]
          simp [PropertySchema.ofRow, hkey, hindex, hany, Checks.ok_bind, pure, Except.pure]
        · rintro row' (_ | ⟨_, hmem⟩) hproperty' key' hkey'
          · cases hkey.symm.trans hkey'
            exact hany
          · exact hfinds row' hmem hproperty' key' hkey'
      | false =>
        refine ⟨(key, .ofRow row) :: index, ?_, ?_, ?_⟩
        · rw [indexRows, hrow?, hproperty]
          simp [PropertySchema.ofRow, hkey, hindex, hany, Checks.ok_bind, pure, Except.pure]
        · rintro e (_ | ⟨_, he⟩)
          · exact hown
          · exact (hdescribes e he).mono _
        · rintro row' (_ | ⟨_, hmem⟩) hproperty' key' hkey'
          · cases hkey.symm.trans hkey'
            simp [Key.same_refl]
          · simp [hfinds row' hmem hproperty' key' hkey']

/-- The schema of a property is found under its key. -/
theorem schema?_describes {rows : List Value} {index : List (Key × PropertySchema)} {name : String}
    (hindex : IsIndex rows index) (h : index.any (fun e => (Key.str name).same e.1) = true) :
    ∃ schema, schema? index (.str name) = some schema ∧ Describes rows (.str name) schema := by
  obtain ⟨e, he⟩ := Option.isSome_iff_exists.1 (List.find?_isSome.2 (List.any_eq_true.1 h))
  have hkey : e.1 = .str name := by
    have hsame := List.find?_some he
    rwa [Key.same, beq_iff_eq] at hsame
  refine ⟨e.2, ?_, hkey ▸ hindex e (List.mem_of_find?_eq_some he)⟩
  rw [schema?, he]
  rfl

/-- Properties of a template are found by their keys, one after the other. -/
theorem filterMap_schema? {rows : List Value} {index : List (Key × PropertySchema)} {keys : List Key}
    (h : ∀ key ∈ keys, ∃ schema, schema? index key = some schema ∧ Describes rows key schema) :
    List.Forall₂ (Describes rows) keys (keys.filterMap (schema? index)) := by
  induction keys with
  | nil => exact .nil
  | cons key rest ih =>
    obtain ⟨⟨schema, hschema, hdescribes⟩, hrest⟩ := List.forall_mem_cons.1 h
    rw [List.filterMap_cons_some hschema]
    exact .cons hdescribes (ih hrest)

theorem toKey_toValue (k : Key) : k.toValue.toKey = .ok k :=
  Checks.toKey_iff.2 (Key.toKey?_toValue k)

/-- Mapped keys that are all known pass the check. -/
theorem requireKnown_of_known {template : Value} {index : List (Key × PropertySchema)}
    {mappings : Dict} (h : ∀ key ∈ Dict.keys mappings, (schema? index key).isSome = true)
    (t : Situation σ) : requireKnown template index (.dict mappings) t = (.ok (), t) := by
  have hkeys : ((Dict.keys mappings).map Key.toValue).mapM Value.toKey
      = .ok (Dict.keys mappings) := by
    rw [Checks.mapM_iff, List.map_map]
    exact List.map_congr_left fun k _ => toKey_toValue k
  have hitems : (do (← (Value.dict mappings).items).mapM Value.toKey)
      = (.ok (Dict.keys mappings) : Except Fault (List Key)) := by
    rw [← hkeys, Dict.keys, List.map_map]
    rfl
  have hunknown : (Dict.keys mappings).filter (fun key => (schema? index key).isNone) = [] := by
    rw [List.filter_eq_nil_iff]
    intro key hkey
    simpa [Option.isSome_iff_ne_none] using h key hkey
  unfold requireKnown
  rw [hitems, bind_of_ok (StepM.lift_of_ok rfl), hunknown]
  rfl

/-- Texts can be listed. -/
theorem texts_of_texts {keys : List Key} (h : ∀ key ∈ keys, ∃ text, key = .str text) :
    ∃ names, texts keys = .ok names := by
  induction keys with
  | nil => exact ⟨[], rfl⟩
  | cons key rest ih =>
    obtain ⟨⟨text, rfl⟩, hrest⟩ := List.forall_mem_cons.1 h
    obtain ⟨names, hnames⟩ := ih hrest
    refine ⟨text :: names, ?_⟩
    rw [texts, hnames]
    rfl

/-! ## What the step does -/

section Steps

variable {engine : Engine σ} {label : StepLabel} {template tid target : Value} {mappings : Dict}
  {instructions rows : List Value} {index : List (Key × PropertySchema)} {division : Division}
  {t : Situation σ} {o : σ}

/-- A step that has what it needs goes on with the division of its mappings. -/
theorem run_of_division (label : StepLabel) (instructions : List Value) (target : Value)
    {provider : SchemaProvider σ} (hprovider : engine.templates? = some provider)
    (hgiven : StepLabel.isMissing template = false) (hmapped : mappings ≠ [])
    (hfill : Template.fill t.context template = .ok tid)
    (hrows : provider (t.context.settle tid) t.outside = (.ok (.list rows), o))
    (hindex : indexRows rows = .ok index)
    (hknown : ∀ key ∈ Dict.keys mappings, (schema? index key).isSome = true)
    (hdivision : divide t.context mappings = .ok division) :
    run engine label template (.dict mappings) instructions target t
      = (if division.pending.isEmpty then create engine label tid division.prefilled target
        else askAgent label tid index division instructions) { t with outside := o } := by
  have hrequired : StepLabel.isMissing (.dict mappings) = false := by
    cases mappings with
    | nil => exact absurd rfl hmapped
    | cons => rfl
  have hread : (do indexRows (← (Value.list rows).items)) = .ok index := hindex
  have hentries : (Value.dict mappings).toRecord "items" = .ok mappings := rfl
  have hfilled : StepM.filled template t = (.ok tid, t) := StepM.look_of_ok hfill
  have hsettled (u : Situation σ) :
      StepM.settled tid u = (.ok (u.context.settle tid), u) := StepM.look_of_ok rfl
  unfold run
  rw [hprovider, StepLabel.requireCollaborator_some, pure_bind]
  rw [StepLabel.require_of_given hgiven, pure_bind, bind_of_ok hfilled]
  rw [StepLabel.require_of_given hrequired, pure_bind, bind_of_ok (hsettled t)]
  rw [bind_of_ok (StepM.ask_of_ok hrows), bind_of_ok (StepM.lift_of_ok hread)]
  rw [bind_of_ok (hsettled _), bind_of_ok (requireKnown_of_known hknown _)]
  rw [bind_of_ok (StepM.lift_of_ok hentries), bind_of_ok (StepM.look_of_ok hdivision)]

/-- The world after the object has been created, if there is a tool that may do it. -/
def created (engine : Engine σ) (c : Context) (tid : Value) (properties : Dict) (o : σ) : σ :=
  match engine.tools? with
  | some call => (call (.str toolName)
      (c.settle (.record [("template_id", tid), ("properties", .dict properties)])) o).2
  | none => o

/-- The tool has been called as often as it should, and the run is not stopped. -/
structure IsCreated (engine : Engine σ) (t : Situation σ) (tid : Value) (properties : Dict)
    (u : Situation σ) : Prop where
  outside : u.outside = created engine t.context tid properties t.outside
  result : u.context.result? = t.context.result?
  suspended : u.context.suspended = t.context.suspended

/-- The tool is called once, whatever it answers. -/
theorem create_isCreated (engine : Engine σ) (label : StepLabel) (target : Value) {shown : String}
    (hshown : (t.context.settle tid).spell = .ok shown) (properties : Dict) :
    IsCreated engine t tid properties (create engine label tid properties target t).2 := by
  have hshown' : StepM.spelled tid t = (.ok shown, t) := StepM.look_of_ok hshown
  have hsettled (v : Value) : StepM.settled v t = (.ok (t.context.settle v), t) :=
    StepM.look_of_ok rfl
  unfold create
  cases htools : engine.tools? with
  | none => exact ⟨by rw [created, htools]; rfl, rfl, rfl⟩
  | some call =>
    rw [StepLabel.requireCollaborator_some, pure_bind, bind_of_ok hshown', bind_of_ok (hsettled _)]
    -- However the call ends, the world is as it has left it.
    have hcalled (answer : Except Raised Value) (o : σ)
        (h : call (.str toolName) (t.context.settle (.record
          [("template_id", tid), ("properties", .dict properties)])) t.outside = (answer, o)) :
        o = created engine t.context tid properties t.outside := by
      rw [created, htools]
      dsimp only
      rw [h]
    refine StepM.wp_end ?_
    unfold StepLabel.askTool
    rw [StepM.wp_bind, StepM.wp_bind, StepM.wp_attempt, StepM.wp_ask]
    refine ⟨fun answer o h => ?_, fun e o h => ?_⟩
    · rw [StepM.wp_pure, StepM.wp_bind]
      unfold StepM.bindIfNamed
      split
      · unfold StepM.bindVariable
        rw [StepM.wp_bind, StepM.wp_lift]
        exact ⟨fun key _ => ⟨hcalled _ o h, rfl, rfl⟩, fun _ _ => ⟨hcalled _ o h, rfl, rfl⟩⟩
      · exact ⟨hcalled _ o h, rfl, rfl⟩
    · rw [StepM.wp_bind, StepM.wp_written]
      exact ⟨fun _ _ => ⟨hcalled _ o h, rfl, rfl⟩, fun _ _ => ⟨hcalled _ o h, rfl, rfl⟩⟩

/-- What is recorded in the end changes nothing of it. -/
theorem IsCreated.closed {u : Situation σ} {properties : Dict} {body : StepM σ Value}
    (h : IsCreated engine t tid properties (body u).2) :
    IsCreated engine t tid properties (RunM.closed label body u).2 := by
  cases hbody : body u with
  | mk answer v =>
    rw [hbody] at h
    cases answer with
    | ok output =>
      rw [RunM.closed_of_ok hbody]
      exact ⟨h.outside, h.result, h.suspended⟩
    | error e =>
      obtain hclosed | ⟨crash, hclosed⟩ := RunM.closed_of_raised label hbody
      · rw [hclosed]
        exact ⟨h.outside, h.result, h.suspended⟩
      · rw [hclosed]
        exact h

/-- An agent is asked for the pending properties, and the run is paused. -/
theorem askAgent_of_ok {path : List Dict} {lines wanted names : List String} {shown : String}
    (hpath : t.context.position = path.map .dict)
    (hlines : instructions.mapM (Template.fillAsText t.context) = .ok lines)
    (hshown : (t.context.settle tid).spell = .ok shown)
    (hwanted : (division.pending.filterMap (schema? index)).mapM PropertySchema.instruction
      = .ok wanted)
    (hnames : texts division.pending = .ok names) :
    askAgent label tid index division instructions t
      = (.ok (.record [("template_id", tid), ("prefilled_values", .dict division.prefilled),
          ("pending_properties", linesValue names)]), { t with context := { t.context.halt
          (label.payload t.context (lines ++ [instruction shown] ++ wanted)
            [("action", .str toolName), ("template_id", tid),
              ("property_schemas", .list
                ((division.pending.filterMap (schema? index)).map PropertySchema.toValue)),
              ("prefilled_values", .dict division.prefilled)])
        with suspendedPath := path } }) := by
  have hlines' : StepM.filledLines instructions t = (.ok lines, t) := StepM.look_of_ok hlines
  have hshown' : StepM.spelled tid t = (.ok shown, t) := StepM.look_of_ok hshown
  unfold askAgent
  rw [bind_of_ok hlines', bind_of_ok hshown', bind_of_ok (StepM.lift_of_ok hwanted)]
  rw [bind_of_ok (StepM.lift_of_ok hnames)]
  have hpause (lines : List String) (extra : List (String × Value)) :
      StepLabel.pause label lines extra t = (.ok (), { t with context :=
        { t.context.halt (label.payload t.context lines extra) with suspendedPath := path } }) := by
    have hcontext : StepM.context t = (.ok t.context, t) := rfl
    unfold StepLabel.pause
    rw [bind_of_ok hcontext, StepM.update, Context.suspend_of_dicts _ hpath]
    rfl
  rw [bind_of_ok (hpause _ _)]
  rfl

/-- The run is paused for an agent, and no tool has been called: the payload describes the properties
that are pending and holds the fillings of the others. -/
structure IsAsked {α : Type} (rows : List Value) (prefilled : Dict) (pending : List Key) (o : σ)
    (answer : Except Raised α) (u : Situation σ) : Prop where
  outside : u.outside = o
  answered : answer.isOk = true
  suspended : u.context.suspended = .bool true
  payload : ∃ (payload : Dict) (schemas : List PropertySchema),
    u.context.result? = some (.dict payload) ∧ List.Forall₂ (Describes rows) pending schemas ∧
      Dict.field? payload "property_schemas" = some (.list (schemas.map PropertySchema.toValue)) ∧
      Dict.field? payload "prefilled_values" = some (.dict prefilled)

theorem askAgent_isAsked {shown : String} (hlocated : t.context.IsLocated)
    (hshown : (t.context.settle tid).spell = .ok shown)
    (hlines : ∀ line ∈ instructions, ∃ text, Template.fillAsText t.context line = .ok text)
    (htexts : ∀ key ∈ division.pending, ∃ text, key = .str text)
    (hschema : ∀ key ∈ division.pending, ∃ schema, schema? index key = some schema ∧
      Describes rows key schema ∧ ∃ line, schema.instruction = .ok line) :
    IsAsked rows division.prefilled division.pending t.outside
      (askAgent label tid index division instructions t).1
      (askAgent label tid index division instructions t).2 := by
  have hinstruction (schema : PropertySchema)
      (hmem : schema ∈ division.pending.filterMap (schema? index)) :
      ∃ line, schema.instruction = .ok line := by
    obtain ⟨key, hkey, hfound⟩ := List.mem_filterMap.1 hmem
    obtain ⟨schema', hfound', -, hline⟩ := hschema key hkey
    cases hfound.symm.trans hfound'
    exact hline
  obtain ⟨path, hpath⟩ := hlocated
  obtain ⟨lines, hlines⟩ := Checks.mapM_of_forall hlines
  obtain ⟨wanted, hwanted⟩ := Checks.mapM_of_forall hinstruction
  obtain ⟨names, hnames⟩ := texts_of_texts htexts
  have hdescribed := filterMap_schema? fun key hkey =>
    (hschema key hkey).imp fun _ h => ⟨h.1, h.2.1⟩
  rw [askAgent_of_ok hpath hlines hshown hwanted hnames]
  exact ⟨rfl, rfl, rfl, _, _, rfl, hdescribed, rfl, rfl⟩

theorem IsAsked.closed {prefilled : Dict} {pending : List Key} {u : Situation σ}
    {body : StepM σ Value} (h : IsAsked rows prefilled pending o (body u).1 (body u).2) :
    IsAsked rows prefilled pending o (RunM.closed label body u).1 (RunM.closed label body u).2 := by
  cases hbody : body u with
  | mk answer v =>
    rw [hbody] at h
    cases answer with
    | ok output =>
      rw [RunM.closed_of_ok hbody]
      exact ⟨h.outside, rfl, h.suspended, h.payload⟩
    | error e => cases h.answered

end Steps

/-! ## The decision -/

/-- The step at work has a name that can be written out, a template and mappings under texts, each of
which names a property of the template; no path in its fields is a fault, and the template's rows
are given for it, with which the world is left as `o`. -/
structure IsPosed (engine : Engine σ) (name template : Value) (mappings : Dict)
    (instructions rows : List Value) (t : Situation σ) (o : σ) : Prop where
  named : name.isSpellable = true
  located : t.context.IsLocated
  given : StepLabel.isMissing template = false
  mapped : mappings ≠ []
  texts : ∀ key ∈ Dict.keys mappings, ∃ text, key = .str text
  distinct : Key.AllDifferent (Dict.keys mappings)
  looks : Looks t.context
    (Template.referencesAll [template, .dict mappings, .list instructions])
  answers : ∀ tid, Template.fill t.context template = .ok tid → ∃ provider,
    engine.templates? = some provider ∧
      provider (t.context.settle tid) t.outside = (.ok (.list rows), o)
  areRows : AreRows rows
  known : ∀ key ∈ Dict.keys mappings, ∃ row : Dict, .dict row ∈ rows ∧
    PropertySchema.isProperty row = true ∧ row.field "key" = key.toValue

/-- What the step at work writes out as text can be written: the values in longer texts, the template,
and, if a property is pending, the instructions and the rows of those that are. -/
structure IsWritable (template : Value) (mappings : Dict) (instructions rows : List Value)
    (c : Context) : Prop where
  embedded : ∀ e ∈ mappings, ¬ IsPending c e.2 → Writes c (Template.embedded e.2)
  templateText : Writes c (Template.embedded template)
  shown : ∀ tid, Template.fill c template = .ok tid → (c.settle tid).isSpellable = true
  lines : (∃ e ∈ mappings, IsPending c e.2) →
    ∀ line ∈ instructions, ∃ text, Template.fillAsText c line = .ok text
  wanted : ∀ e ∈ mappings, IsPending c e.2 → ∀ row : Dict, .dict row ∈ rows →
    PropertySchema.isProperty row = true → row.field "key" = e.1.toValue →
    ∃ line, (PropertySchema.ofRow row).instruction = .ok line

/-- What the step comes to, once its properties are divided: the object is created if none is pending,
and else an agent is asked for those that are. -/
structure Decides (engine : Engine σ) (mappings : Dict) (rows : List Value) (t : Situation σ) (o : σ)
    (tid : Value) (prefilled : Dict) (pending : List Key) (answer : Except Raised StepResult)
    (u : Situation σ) : Prop where
  divided : Divided t.context mappings prefilled pending
  disjoint : ∀ key ∈ pending, key ∉ Dict.keys prefilled
  together : (Dict.keys prefilled ++ pending).Perm (Dict.keys mappings)
  creates : pending = [] → IsCreated engine { t with outside := o } tid prefilled u
  asks : pending ≠ [] → IsAsked rows prefilled pending o answer u

/-- The mapped keys are found among the rows of the template. -/
theorem IsPosed.schemas {engine : Engine σ} {name template : Value} {mappings : Dict}
    {instructions rows : List Value} {t : Situation σ} {o : σ}
    (h : IsPosed engine name template mappings instructions rows t o) :
    ∃ index, indexRows rows = .ok index ∧ ∀ key ∈ Dict.keys mappings, ∃ schema,
      schema? index key = some schema ∧ Describes rows key schema := by
  obtain ⟨index, hindex, hdescribes, hfinds⟩ := indexRows_isIndex h.areRows
  refine ⟨index, hindex, fun key hkey => ?_⟩
  obtain ⟨text, rfl⟩ := h.texts key hkey
  obtain ⟨row, hrow, hproperty, heq⟩ := h.known _ hkey
  exact schema?_describes hdescribes (hfinds row hrow hproperty _ (by rw [heq]; rfl))

/-- A step that creates objects decides exactly between creating one and asking an agent. -/
theorem runStep_decides (engine : Engine σ) (name template target : Value) (mappings : Dict)
    (instructions rows : List Value) (t : Situation σ) (o : σ)
    (h : IsPosed engine name template mappings instructions rows t o)
    (hwritable : IsWritable template mappings instructions rows t.context) :
    let act := Action.createObject template (.dict mappings) instructions target
    ∃ tid prefilled pending, Template.fill t.context template = .ok tid ∧
      Decides engine mappings rows t o tid prefilled pending
        (runStep engine (.action name act) t).1 (runStep engine (.action name act) t).2 := by
  intro act
  obtain ⟨tid, htid, -⟩ := Template.fills_fill template h.looks.left hwritable.templateText
  obtain ⟨provider, hprovider, hrows⟩ := h.answers tid htid
  obtain ⟨index, hindex, hschema⟩ := h.schemas
  obtain ⟨division, hdivision, hdivided⟩ :=
    divide_divided h.looks.right.left hwritable.embedded
  have hshown := Value.spell_of_isSpellable (hwritable.shown tid htid)
  have hrun := run_of_division (t := t.start (.action name act)) (Step.action name act).label
    instructions target hprovider h.given h.mapped htid hrows hindex
    (fun key hkey => Option.isSome_iff_exists.2 ((hschema key hkey).imp fun _ h => h.1)) hdivision
  have hstep : runStep engine (.action name act) t = RunM.closed (Step.action name act).label
      (run engine (Step.action name act).label template (.dict mappings) instructions target)
      (t.start (.action name act)) := by
    rw [runStep]
    exact RunM.recorded_of_spellable h.named
  refine ⟨tid, division.prefilled, division.pending, htid, hdivided,
    hdivided.disjoint h.distinct.nodup, hdivided.perm, fun hnone => ?_, fun hsome => ?_⟩
  · rw [hstep]
    refine IsCreated.closed ?_
    rw [hrun, hnone, List.isEmpty_nil, if_pos rfl]
    have hcreated := create_isCreated (t := { t.start (.action name act) with outside := o }) engine
      (Step.action name act).label target hshown division.prefilled
    exact ⟨hcreated.outside, hcreated.result, hcreated.suspended⟩
  · have hpending (key : Key) (hkey : key ∈ division.pending) :
        ∃ mapping, (key, mapping) ∈ mappings ∧ IsPending t.context mapping := hdivided.isPending hkey
    rw [hstep]
    refine IsAsked.closed ?_
    rw [hrun, if_neg (by simpa using hsome)]
    refine askAgent_isAsked (t := { t.start (.action name act) with outside := o })
      h.located hshown (hwritable.lines ?_)
      (fun key hkey => h.texts key (hdivided.mem_keys hkey)) fun key hkey => ?_
    · obtain ⟨key, hkey⟩ := List.exists_mem_of_ne_nil _ hsome
      obtain ⟨mapping, hmem, hmapping⟩ := hpending key hkey
      exact ⟨_, hmem, hmapping⟩
    · obtain ⟨mapping, hmem, hmapping⟩ := hpending key hkey
      obtain ⟨schema, hfound, hdescribes⟩ := hschema key (hdivided.mem_keys hkey)
      refine ⟨schema, hfound, hdescribes, ?_⟩
      obtain ⟨hname, row, hrow, hproperty, rfl⟩ := hdescribes
      exact hwritable.wanted (key, mapping) hmem hmapping row hrow hproperty hname

/-- The rows of a template with two properties. -/
def sketchRows : List Value := [
  .record [("key", .str "title"), ("type", .str "text")],
  .record [("key", .str "stage"), ("type", .str "text"), ("description", .str "How far it is")]]

/-- An engine that knows one template, and whose tool counts its calls. -/
def studio : Engine Nat where
  templates? := some fun _ calls => (.ok (.list sketchRows), calls)
  tools? := some fun _ _ calls => (.ok .null, calls + 1)

/-- A run with one variable. -/
def sketching (x : Value) : Situation Nat where
  context := { bindings := [(.str "x", x)] }
  outside := 0

/-- A title with an expression in it, and a stage for an agent to find. -/
def sketch : Dict := [(.str "title", .str "n {{x}}"), (.str "stage", .null)]

theorem sketch_isPosed (x : Value) :
    IsPosed studio (.str "make") (.int 1) sketch [] sketchRows (sketching x) 0 where
  named := rfl
  located := ⟨[], rfl⟩
  given := rfl
  mapped := List.cons_ne_nil _ _
  texts := by simp [sketch, Dict.keys]
  distinct := by decide
  looks := by
    have hpaths : Template.referencesAll [.int 1, .dict sketch, .list []] = ["x"] := by rfl
    rw [hpaths]
    intro path hpath
    cases List.mem_singleton.1 hpath
    exact ⟨x, rfl⟩
  answers := fun _ _ => ⟨_, rfl, rfl⟩
  areRows := by
    simp only [AreRows, sketchRows, List.forall_mem_cons]
    exact ⟨⟨_, rfl, fun _ => ⟨.str "title", rfl⟩⟩, ⟨_, rfl, fun _ => ⟨.str "stage", rfl⟩⟩, nofun⟩
  known := by
    simp only [sketch, Dict.keys, List.map_cons, List.map_nil, List.forall_mem_cons]
    exact ⟨⟨_, .head _, rfl, rfl⟩, ⟨_, .tail _ (.head _), rfl, rfl⟩, nofun⟩

theorem runStep_decides_of_sketch :
    let act := Action.createObject (.int 1) (.dict sketch) [] .null
    let after := runStep studio (.action (.str "make") act) (sketching (.str "hat"))
    IsPosed studio (.str "make") (.int 1) sketch [] sketchRows (sketching (.str "hat")) 0 ∧
      IsWritable (.int 1) sketch [] sketchRows (sketching (.str "hat")).context ∧
      ∃ tid prefilled pending, Decides studio sketch sketchRows (sketching (.str "hat")) 0 tid prefilled
        pending after.1 after.2 := by
  intro act after
  have hposed := sketch_isPosed (.str "hat")
  have htitle : Writes (sketching (.str "hat")).context (Template.embedded (.str "n {{x}}")) := by
    have hpaths : Template.embedded (.str "n {{x}}") = ["x"] := by rfl
    have hresolve : Template.resolve (sketching (.str "hat")).context "x" = .ok (.str "hat") := by rfl
    rw [hpaths]
    intro path hpath v hv _
    cases List.mem_singleton.1 hpath
    cases hresolve.symm.trans hv
    exact ⟨"hat", rfl⟩
  have hwritable : IsWritable (.int 1) sketch [] sketchRows (sketching (.str "hat")).context := by
    refine ⟨?_, List.forall_mem_nil _, ?_, fun _ => List.forall_mem_nil _, ?_⟩
    · simp only [sketch, List.forall_mem_cons]
      exact ⟨fun _ => htitle, fun hready => absurd (.inr (.inl .null)) hready, List.forall_mem_nil _⟩
    · rintro tid ⟨⟩
      decide +kernel
    · rintro e - - row (_ | ⟨_, _ | ⟨_, hrow⟩⟩) - -
      · exact ⟨_, rfl⟩
      · exact ⟨_, rfl⟩
      · cases hrow
  obtain ⟨tid, prefilled, pending, -, hdecides⟩ :=
    runStep_decides studio (.str "make") (.int 1) .null sketch [] sketchRows _ 0 hposed hwritable
  exact ⟨hposed, hwritable, tid, prefilled, pending, hdecides⟩

/-- A dictionary under whose key no text can stand. -/
def unwritable : Value := .dict [(.tuple [.int 1, .int 2], .int 3)]

/-- A step whose title cannot be written neither creates an object nor asks for one. -/
theorem not_decides_of_unwritable :
    ¬ ∀ (engine : Engine Nat) (name template target : Value) (mappings : Dict)
      (instructions rows : List Value) (t : Situation Nat) (o : Nat),
      IsPosed engine name template mappings instructions rows t o →
      ∃ tid prefilled pending, Decides engine mappings rows t o tid prefilled pending
        (runStep engine
          (.action name (.createObject template (.dict mappings) instructions target)) t).1
        (runStep engine
          (.action name (.createObject template (.dict mappings) instructions target)) t).2 := by
  intro h
  obtain ⟨tid, prefilled, pending, hdecides⟩ := h studio (.str "make") (.int 1) .null sketch [] sketchRows
    (sketching unwritable) 0 (sketch_isPosed _)
  generalize hstep : runStep studio (.action (.str "make")
    (.createObject (.int 1) (.dict sketch) [] .null)) (sketching unwritable) = p
    at hdecides
  have hraised : p.1.isOk = false := by
    rw [← hstep]
    decide +kernel
  have hcalls : p.2.outside = 0 := by
    rw [← hstep]
    decide +kernel
  by_cases hnone : pending = []
  · have hcalled : p.2.outside = 1 := (hdecides.creates hnone).outside
    cases hcalls.symm.trans hcalled
  · cases hraised.symm.trans (hdecides.asks hnone).answered

end Creation

end Stepwise
