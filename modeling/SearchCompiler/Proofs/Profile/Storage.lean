import SearchCompiler.Proofs.Settings.Storage
import SearchCompiler.Rescore

/-!
Stored rescoring profiles. Like settings they are read back from what was written for them,
and the same edits may be made to the object of a profile and to the object of any of its
stages, of which only the weights and modes have defaults. Without its list of stages there
is no profile, and without its kind or its window there is no stage.
-/

namespace SearchCompiler

theorem mapM_eq_none_of_mem {α β : Type} {f : α → Option β} {a : α} {xs : List α} (h : a ∈ xs)
    (hnone : f a = none) : xs.mapM f = none := by
  obtain ⟨before, after, rfl⟩ := List.append_of_mem h
  rw [List.mapM_append, List.mapM_cons, hnone]
  cases before.mapM f <;> rfl

theorem StageKind.decode?_name (kind : StageKind) :
    decode? (Json.string kind.name).document = some kind := by
  cases kind <;> rfl

namespace RescoreStage

theorem decode?_eq_some {d : Document} {field : String → Option Document} {stage : RescoreStage}
    (hrecord : d.record? fieldNames = some field)
    (hkind : Document.required StageKind.decode? (field "kind") = some stage.kind)
    (hwindow : Document.required Document.uint32? (field "window") = some stage.window)
    (hqueryWeight : Document.defaulted .one Document.double? (field "query_weight") =
      some stage.queryWeight)
    (hrescoreQueryWeight : Document.defaulted .one Document.double?
      (field "rescore_query_weight") = some stage.rescoreQueryWeight)
    (hscoreMode : Document.defaulted "total" Document.string? (field "score_mode") =
      some stage.scoreMode)
    (hfunctionMode : Document.defaulted "multiply" Document.string? (field "function_mode") =
      some stage.functionMode) :
    decode? d = some stage := by
  unfold decode?
  simp only [hrecord, hkind, hwindow, hqueryWeight, hrescoreQueryWeight, hscoreMode,
    hfunctionMode, Option.bind_eq_bind, Option.bind_some]
  rfl

/-- What was written is read back. -/
theorem decode?_toJson (stage : RescoreStage) : decode? stage.toJson.document = some stage := by
  refine decode?_eq_some (Document.record?_document ?_ fieldNames)
    (Document.required_of_written rfl (StageKind.decode?_name _))
    (Document.required_of_written rfl (Document.uint32?_document _))
    (Document.defaulted_of_written rfl (Document.double?_document _))
    (Document.defaulted_of_written rfl (Document.double?_document _))
    (Document.defaulted_of_written rfl (Document.string?_document _))
    (Document.defaulted_of_written rfl (Document.string?_document _))
  simp

/-- Whether a document stands for the default of the field with a name. -/
def IsDefault : String → Document → Prop
  | "query_weight", d => d.double? = some .one
  | "rescore_query_weight", d => d.double? = some .one
  | "score_mode", d => d.string? = some "total"
  | "function_mode", d => d.string? = some "multiply"
  | _, _ => False

/-- Stages are read alike from documents that are the same record. -/
theorem decode?_of_sameRecord {d d' : Document}
    (h : Document.SameRecord fieldNames Document.Reorders IsDefault d d') :
    decode? d = decode? d' := by
  unfold decode?
  refine Document.bind_record?_eq h fun field other halike => ?_
  have hkind : Document.required StageKind.decode? (field "kind") =
      Document.required StageKind.decode? (other "kind") :=
    Document.required_of_alike (halike _ (by decide)) (fun _ _ => Document.choice?_of_reorders _)
      fun _ hdefault => hdefault
  have hwindow : Document.required Document.uint32? (field "window") =
      Document.required Document.uint32? (other "window") :=
    Document.required_of_alike (halike _ (by decide)) (fun _ _ => Document.uint32?_of_reorders)
      fun _ hdefault => hdefault
  have hweight (name : String) (hname : name ∈ fieldNames)
      (hdefault : ∀ d, IsDefault name d → d.double? = some .one) :
      Document.defaulted .one Document.double? (field name) =
        Document.defaulted .one Document.double? (other name) :=
    Document.defaulted_of_alike (halike name hname) (fun _ _ => Document.double?_of_reorders)
      hdefault
  have hmode (name value : String) (hname : name ∈ fieldNames)
      (hdefault : ∀ d, IsDefault name d → d.string? = some value) :
      Document.defaulted value Document.string? (field name) =
        Document.defaulted value Document.string? (other name) :=
    Document.defaulted_of_alike (halike name hname) (fun _ _ => Document.string?_of_reorders)
      hdefault
  simp only [hkind, hwindow,
    hweight "query_weight" (by decide) fun _ hdefault => hdefault,
    hweight "rescore_query_weight" (by decide) fun _ hdefault => hdefault,
    hmode "score_mode" "total" (by decide) fun _ hdefault => hdefault,
    hmode "function_mode" "multiply" (by decide) fun _ hdefault => hdefault]

/-- A stage has to have a kind and a window. -/
theorem decode?_deleted {name : String} (hname : name = "kind" ∨ name = "window")
    (entries : List (Option String × Document)) :
    decode? (.object (deleted name entries)) = none := by
  unfold decode?
  cases hrecord : (Document.object (deleted name entries)).record? fieldNames with
  | none => rfl
  | some field =>
      have hfield : field name = none := Document.record?_deleted hrecord
      obtain rfl | rfl := hname
      · simp only [hfield, Document.required, Option.bind_eq_bind, Option.bind_some,
          Option.bind_none]
      · simp only [hfield, Document.required, Option.bind_eq_bind, Option.bind_some,
          Option.bind_none, Option.bind_fun_none]

end RescoreStage

namespace RescoreProfile

/-- What was written is read back. -/
theorem decode?_toJson (profile : RescoreProfile) :
    decode? profile.toJson.document = some profile := by
  let entries := [("stages", Json.array (profile.stages.map RescoreStage.toJson))]
  have hrecord : profile.toJson.document.record? ["stages"] =
      some fun name => (entries.lookup name).map Json.document := by
    refine Document.record?_document ?_ ["stages"]
    exact List.nodup_singleton "stages"
  have hstages : Document.required (Document.list? RescoreStage.decode?)
      ((entries.lookup "stages").map Json.document) = some profile.stages :=
    Document.required_of_written rfl
      (Document.list?_document RescoreStage.decode?_toJson profile.stages)
  unfold decode?
  rw [hrecord, Option.bind_eq_bind, Option.bind_some, hstages]
  rfl

/-- In one document the same stages are found as in the other. -/
def SameStages (d d' : Document) : Prop :=
  d.list? RescoreStage.decode? = d'.list? RescoreStage.decode?

/-- Profiles are read alike from documents that are the same record, with lists in which
the same stages are found. -/
theorem decode?_of_sameRecord {same : Document → Document → Prop}
    (hsame : ∀ d d', same d d' → SameStages d d') {d d' : Document}
    (h : Document.SameRecord ["stages"] same (fun _ _ => False) d d') :
    decode? d = decode? d' := by
  unfold decode?
  refine Document.bind_record?_eq h fun field other halike => ?_
  rw [Document.required_of_alike (halike "stages" (by decide)) hsame fun _ => id]

/-- A change to a stored profile, or to one of its stages. -/
inductive Edits : Document → Document → Prop
  | reorder {d d' : Document} : d.Reorders d' → Edits d d'
  | adjust {d d' : Document} : Document.Adjusts ["stages"] (fun _ _ => False) d d' → Edits d d'
  | stage {d d' : Document} (before after : List (Option String × Document))
      (stages stages' : List Document) :
      Document.Adjusts RescoreStage.fieldNames RescoreStage.IsDefault d d' →
      Edits (.object (before ++ (some "stages", .array (stages ++ d :: stages')) :: after))
        (.object (before ++ (some "stages", .array (stages ++ d' :: stages')) :: after))

theorem decode?_of_edits {d d' : Document} (h : Edits d d') : decode? d' = decode? d := by
  cases h with
  | reorder h =>
      have hlist (d d' : Document) (h : d.Reorders d') : SameStages d d' :=
        Document.list?_of_reorders (fun _ _ h =>
          RescoreStage.decode?_of_sameRecord (Document.sameRecord_of_reorders h)) h
      exact (decode?_of_sameRecord hlist (Document.sameRecord_of_reorders h)).symm
  | adjust h =>
      exact (decode?_of_sameRecord (fun _ _ heq => congrArg _ heq)
        (Document.sameRecord_of_adjusts Eq.refl h)).symm
  | @stage d d' before after stages stages' h =>
      -- From the inside out: the stage, the list that it stands in, the entry of the list.
      have hstage : RescoreStage.decode? d = RescoreStage.decode? d' :=
        RescoreStage.decode?_of_sameRecord (Document.sameRecord_of_adjusts .refl h)
      have hlist : SameStages (.array (stages ++ d :: stages'))
          (.array (stages ++ d' :: stages')) :=
        mapM_congr_item hstage stages stages'
      have hrefl (d : Document) : SameStages d d := rfl
      exact (decode?_of_sameRecord (fun _ _ => id)
        (Document.sameRecord_entry hrefl hlist before after (some "stages"))).symm

/-- A profile has to have a list of stages. -/
theorem decode?_deleted_stages (entries : List (Option String × Document)) :
    decode? (.object (deleted "stages" entries)) = none := by
  unfold decode?
  cases hrecord : (Document.object (deleted "stages" entries)).record? ["stages"] with
  | none => rfl
  | some field =>
      have hfield : field "stages" = none := Document.record?_deleted hrecord
      simp only [hfield, Document.required, Option.bind_eq_bind, Option.bind_some,
        Option.bind_none]

/-- All its stages have to be stages. -/
theorem decode?_eq_none_of_stage {entries : List (Option String × Document)}
    {stages : List Document} {stage : Document}
    (hstages : (some "stages", .array stages) ∈ entries) (hstage : stage ∈ stages)
    (hnone : RescoreStage.decode? stage = none) : decode? (.object entries) = none := by
  unfold decode?
  cases hrecord : (Document.object entries).record? ["stages"] with
  | none => rfl
  | some field =>
      have hfield : field "stages" = some (.array stages) :=
        Document.record?_of_mem hrecord List.mem_cons_self hstages
      have hlist : (Document.array stages).list? RescoreStage.decode? = none :=
        mapM_eq_none_of_mem hstage hnone
      simp only [hfield, Document.required, hlist, Option.bind_eq_bind, Option.bind_some,
        Option.bind_none]

end RescoreProfile

/-- Stored settings and rescoring profiles survive. What is written for them is read back
as what it was; so what was read from any document is read again from what is written for
it. No series of edits makes a document into other settings or another profile, or makes it
readable or unreadable: neither moving keys about, nor adding keys that are no fields to
the settings, a profile or one of its stages, nor deleting a field there that has its
default, nor taking any of this back. But a profile without its stages, or with a stage
without its kind or window, is refused, whatever else it says. -/
theorem stored_settings_read_back :
    (∀ s : Settings, Settings.decode? s.toJson.document = some s) ∧
    (∀ p : RescoreProfile, RescoreProfile.decode? p.toJson.document = some p) ∧
    (∀ d, ((Settings.decode? d).bind fun s => Settings.decode? s.toJson.document) =
      Settings.decode? d) ∧
    (∀ d, ((RescoreProfile.decode? d).bind fun p => RescoreProfile.decode? p.toJson.document) =
      RescoreProfile.decode? d) ∧
    (∀ d d', Relation.EqvGen Settings.Edits d d' → Settings.decode? d' = Settings.decode? d) ∧
    (∀ d d', Relation.EqvGen RescoreProfile.Edits d d' →
      RescoreProfile.decode? d' = RescoreProfile.decode? d) ∧
    (∀ entries, RescoreProfile.decode? (.object (deleted "stages" entries)) = none) ∧
    ∀ entries stages stage name, (some "stages", .array stages) ∈ entries →
      .object (deleted name stage) ∈ stages → name = "kind" ∨ name = "window" →
        RescoreProfile.decode? (.object entries) = none := by
  refine ⟨Settings.decode?_toJson, RescoreProfile.decode?_toJson, ?_, ?_, ?_, ?_,
    RescoreProfile.decode?_deleted_stages, ?_⟩
  · intro d
    simp only [Settings.decode?_toJson, Option.bind_fun_some]
  · intro d
    simp only [RescoreProfile.decode?_toJson, Option.bind_fun_some]
  · intro d d' h
    exact eq_of_eqvGen Settings.decode? (fun _ _ => Settings.decode?_of_edits) h
  · intro d d' h
    exact eq_of_eqvGen RescoreProfile.decode? (fun _ _ => RescoreProfile.decode?_of_edits) h
  · intro entries stages stage name hstages hstage hname
    exact RescoreProfile.decode?_eq_none_of_stage hstages hstage
      (RescoreStage.decode?_deleted hname stage)

/-- A profile with one stage, given by its entries. -/
def storedStage (entries : List (Option String × Document)) : Document :=
  .object [(some "stages", .array [.object entries])]

/-- A stage with its keys in another order, one that is no field, and a weight that is the
default, though it is written as an integer. -/
theorem stored_settings_read_back_verboseStage :
    RescoreProfile.decode? (storedStage
      [(some "window", .number (some (.int 512))), (some "boost", .null),
        (some "kind", .string (some "phrase")), (some "query_weight", .number (some (.int 1)))]) =
      some ⟨[{ kind := .phrase, window := 512 }]⟩ := by
  let window : Option String × Document := (some "window", .number (some (.int 512)))
  let boost : Option String × Document := (some "boost", .null)
  let kind : Option String × Document := (some "kind", .string (some "phrase"))
  let weight : Option String × Document := (some "query_weight", .number (some (.int 1)))
  have hone : weight.2.double? = some .one := by decide +kernel
  have hadjusts : Document.Adjusts RescoreStage.fieldNames RescoreStage.IsDefault
      (.object [window, boost, kind, weight])
      (.object (deleted "query_weight" [window, boost, kind, weight])) :=
    .delete rfl hone
  have hdeleted : RescoreProfile.Edits (storedStage [window, boost, kind, weight])
      (storedStage [window, boost, kind]) :=
    .stage [] [] [] [] hadjusts
  have hadded : RescoreProfile.Edits (storedStage [window, kind])
      (storedStage [window, boost, kind]) :=
    .stage [] [] [] [] (.add [window] [kind] .null (by decide))
  have hmoved : RescoreProfile.Edits (storedStage [kind, window]) (storedStage [window, kind]) :=
    .reorder (.entry [] [] _ (.item [] [] (.entries (.swap window kind []) (by decide))))
  have hedits : Relation.EqvGen RescoreProfile.Edits (storedStage [kind, window])
      (storedStage [window, boost, kind, weight]) :=
    (((Relation.EqvGen.rel _ _ hmoved).trans _ _ _ (.rel _ _ hadded)).trans _ _ _
      (.symm _ _ (.rel _ _ hdeleted)))
  obtain ⟨_, _, _, _, _, hprofile, _⟩ := stored_settings_read_back
  rw [hprofile _ _ hedits]
  rfl

end SearchCompiler
