-- SUMMARY: The memory of a script keeps a value until another one is set under its key.
import Stepwise.Proofs.Run.Stored
import Stepwise.Scripted

/-!
# Memories

The store of a script is a memory. Whatever the collaborators of the script are asked, a
value that is there for good stays in the memory until another one is set under its key:
tools, templates, functions and sampling leave the store as it is.
-/

namespace Stepwise

/-! ## Values for good -/

/-- The store holds the value under the key, and it is there for good. -/
structure Store.HoldsUnder (k : String) (v : Value) (s : Store) : Prop where
  lifetime : s.lifetime = .null
  stored : s.stored? (.str k) = some { value := v }

namespace Store.HoldsUnder

variable {k : String} {v : Value} {s : Store}

/-- Asking for a value takes none out that is there for good. -/
theorem get (h : s.HoldsUnder k v) (now : Number) (key : String) :
    (s.get now (.str key)).2.HoldsUnder k v := by
  unfold Store.get
  split
  · exact h
  · rename_i found hfound
    split
    · rename_i hexpired
      have hne : key ≠ k := by
        rintro rfl
        cases h.stored.symm.trans hfound
        cases hexpired
      refine ⟨h.lifetime, ?_⟩
      rw [Store.stored?_erase, if_neg hne]
      exact h.stored
    · exact h

/-- Setting a value always succeeds, and it is there for good; the other keys keep theirs. -/
theorem set (h : s.HoldsUnder k v) (now : Number) (key : String) (new : Value) :
    ∃ t, s.set now (.str key) new .null = .ok t ∧ t.HoldsUnder k (if key = k then new else v) := by
  have hnull : Value.null.isNull = true := rfl
  refine ⟨{ s with entries := put (.str key) { value := new } s.entries }, ?_, h.lifetime, ?_⟩
  · rw [Store.set, if_pos hnull, h.lifetime]
    rfl
  · rw [stored?, find?_put]
    by_cases hkey : key = k
    · rw [if_pos hkey, if_pos hkey]
      rfl
    · rw [if_neg hkey, if_neg hkey]
      exact h.stored

end Store.HoldsUnder

/-! ## Collaborators of a script -/

namespace Scripted

variable (P : Store → Prop)

/-- The tools of a script leave the store as it is. -/
theorem callTool_keeps (rules : List (String × ToolRule)) (tool parameters : Value) :
    Ask.Keeps (fun w : World => P w.store) (callTool rules tool parameters) := by
  intro w hw
  unfold callTool
  dsimp only
  split
  · exact hw
  · exact hw

/-- The function leaves the store as it is, whether or not it is given tools of a script. -/
def SparesStore (f : RegisteredFunction World) : Prop :=
  ∀ (rules? : Option (List (String × ToolRule))) (parameters : Value),
    Ask.Keeps (fun w : World => P w.store) (f.handler parameters (rules?.map callTool))

/-- What fetches an object asks a tool at most. -/
theorem fetch_keeps (rules? : Option (List (String × ToolRule))) (parameters : Value) :
    Ask.Keeps (fun w : World => P w.store) (Functions.fetch parameters (rules?.map callTool)) := by
  cases rules? with
  | none => exact fun _ hw => hw
  | some rules =>
    refine .bind (fun w hw => ?_) fun x? => ?_
    · rcases (parameters.toRecord "get").bind fun d => Functions.number? (d.field "object_id")
        with f | x?
      · exact hw
      · exact hw
    · cases Functions.objectNumber? x? with
      | none => exact fun _ hw => hw
      | some n =>
        refine .bind (fun w hw => ?_) fun answer => ?_
        · have hworld := callTool_keeps P rules (.str "get_object")
            (.record [("object_id", .int n)]) w hw
          rcases hanswer : callTool rules (.str "get_object") (.record [("object_id", .int n)]) w
            with ⟨e | v, w'⟩
          · rw [hanswer] at hworld
            exact hworld
          · rw [hanswer] at hworld
            exact hworld
        · cases answer with
          | error e =>
            refine .bind (fun w hw => ?_) fun _ _ hw => hw
            cases Functions.wordingOf e <;> exact hw
          | ok v =>
            dsimp only
            split
            · exact fun _ hw => hw
            · exact fun _ hw => hw

theorem builtin_sparesStore :
    ∀ f ∈ FunctionRegistry.builtin clock, SparesStore P f := by
  have greets (rules? : Option (List (String × ToolRule))) (parameters : Value) :
      Ask.Keeps (fun w : World => P w.store) (Functions.greet clock parameters (rules?.map callTool)) := by
    intro w hw
    unfold Functions.greet
    split
    · exact hw
    · exact hw
  have adds (rules? : Option (List (String × ToolRule))) (parameters : Value) :
      Ask.Keeps (fun w : World => P w.store) (Functions.add parameters (rules?.map callTool)) := by
    intro w hw
    exact hw
  intro f hf
  rcases List.mem_cons.1 hf with rfl | hf
  · exact greets
  · rcases List.mem_cons.1 hf with rfl | hf
    · exact adds
    · cases List.mem_singleton.1 hf
      exact fetch_keeps P

/-- A function of a script answers as its rule says, and does nothing. -/
theorem functionOf_sparesStore (description : FunctionDescription) (rule : FunctionRule) :
    SparesStore P (functionOf description rule) := by
  intro rules? parameters w hw
  cases rule <;> exact hw

/-- What holds of all functions registered so far and of a new one holds of all with the new one. -/
theorem forall_mem_register {Q : RegisteredFunction World → Prop}
    {registry : FunctionRegistry World} {g : RegisteredFunction World}
    (h : ∀ f ∈ registry, Q f) (hg : Q g) : ∀ f ∈ registry.register g, Q f := by
  induction registry with
  | nil =>
    intro f hf
    cases List.mem_singleton.1 hf
    exact hg
  | cons first rest ih =>
    obtain ⟨hfirst, hrest⟩ := List.forall_mem_cons.1 h
    rw [FunctionRegistry.register]
    split
    · exact List.forall_mem_cons.2 ⟨hg, hrest⟩
    · exact List.forall_mem_cons.2 ⟨hfirst, ih hrest⟩

/-- All functions of a script leave the store as it is. -/
theorem Script.functions_spareStore (s : Script) : ∀ f ∈ s.engine.functions, SparesStore P f := by
  have hfold (added : List (FunctionDescription × FunctionRule)) (registry : FunctionRegistry World)
      (h : ∀ f ∈ registry, SparesStore P f) :
      ∀ f ∈ added.foldl (fun registry f => registry.register (functionOf f.1 f.2)) registry,
        SparesStore P f := by
    induction added generalizing registry with
    | nil => exact h
    | cons first rest ih =>
      exact ih _ (forall_mem_register h (functionOf_sparesStore P first.1 first.2))
  refine hfold s.functions _ ?_
  split
  · exact builtin_sparesStore P
  · exact fun _ hf => nomatch hf

/-- The memory of a script holds values under every key. -/
theorem Script.engine_stores (s : Script) (hstore : s.store? = some .memory) (k : String) :
    s.engine.Stores k fun v w => w.store.HoldsUnder k v := by
  have hmemory : s.engine.store? = some (storeOf .memory) := by
    rw [Script.engine, hstore]
    rfl
  constructor
  case tool =>
    intro call hcall tool parameters v
    obtain ⟨rules, -, rfl⟩ := Option.map_eq_some_iff.1 hcall
    exact callTool_keeps (Store.HoldsUnder k v) rules tool parameters
  case template =>
    intro provider hprovider template v w hw
    obtain ⟨rules, -, rfl⟩ := Option.map_eq_some_iff.1 hprovider
    exact hw
  case sampling =>
    intro request hrequest r v w hw
    obtain ⟨rule, -, rfl⟩ := Option.map_eq_some_iff.1 hrequest
    exact hw
  case function =>
    intro f hf parameters v
    exact s.functions_spareStore (Store.HoldsUnder k v) f hf s.tools? parameters
  case stored =>
    intro store hgiven key v w hw
    cases hmemory.symm.trans hgiven
    exact hw.get w.now key
  case storing =>
    intro store hgiven key v new w hw
    cases hmemory.symm.trans hgiven
    obtain ⟨t, hset, ht⟩ := hw.set w.now key new
    simp only [storeOf, hset]
    refine ⟨fun w' hw' => ?_, fun e w' hw' => by cases hw'⟩
    cases hw'
    exact ht

end Scripted

end Stepwise
