import SearchCompiler.Proofs.Folds
import SearchCompiler.Proofs.Json.Reordering
import SearchCompiler.Settings

/-!
Stored settings. Settings are read back from what was written for them. A stored document
may be edited in several ways without becoming other settings: its keys may be moved
about, keys may come to it that are no settings, and settings may be left out that have
their defaults.
-/

namespace SearchCompiler

namespace Settings

theorem decode?_eq_some {d : Document} {field : String → Option Document} {s : Settings}
    (hrecord : d.record? fieldNames = some field)
    (hmaxLength : Document.defaulted 300 Document.uint64?
      (field "max_full_text_query_length") = some s.maxLength)
    (hnamespaceField : Document.defaulted "namespace" Document.string?
      (field "namespace_field") = some s.namespaceField)
    (hallField : Document.defaulted "all" Document.string? (field "all_field") = some s.allField)
    (htitleField : Document.defaulted "title" Document.string? (field "title_field") =
      some s.titleField)
    (hphraseSlop : Document.defaulted 1 Document.uint32? (field "phrase_rescore_slop") =
      some s.phraseSlop)
    (hprofileContext : Document.defaulted "default" Document.string? (field "profile_context") =
      some s.profileContext)
    (hprofileParams : Document.defaulted .empty (Document.table? Document.string?)
      (field "profile_context_params") = some s.profileParams) :
    decode? d = some s := by
  unfold decode?
  simp only [hrecord, hmaxLength, hnamespaceField, hallField, htitleField, hphraseSlop,
    hprofileContext, hprofileParams, Option.bind_eq_bind, Option.bind_some]
  rfl

/-- What was written is read back. -/
theorem decode?_toJson (s : Settings) : decode? s.toJson.document = some s := by
  refine decode?_eq_some (Document.record?_document ?_ fieldNames)
    (Document.defaulted_of_written rfl (Document.uint64?_document _))
    (Document.defaulted_of_written rfl (Document.string?_document _))
    (Document.defaulted_of_written rfl (Document.string?_document _))
    (Document.defaulted_of_written rfl (Document.string?_document _))
    (Document.defaulted_of_written rfl (Document.uint32?_document _))
    (Document.defaulted_of_written rfl (Document.string?_document _))
    (Document.defaulted_of_written rfl (Document.table?_document Document.string?_document _))
  simp

/-- Whether a document stands for the default of the setting with a name. -/
def IsDefault : String → Document → Prop
  | "max_full_text_query_length", d => d.uint64? = some 300
  | "namespace_field", d => d.string? = some "namespace"
  | "all_field", d => d.string? = some "all"
  | "title_field", d => d.string? = some "title"
  | "phrase_rescore_slop", d => d.uint32? = some 1
  | "profile_context", d => d.string? = some "default"
  | "profile_context_params", d => d.table? Document.string? = some .empty
  | _, _ => False

/-- Settings are read alike from documents that are the same record. -/
theorem decode?_of_sameRecord {d d' : Document}
    (h : Document.SameRecord fieldNames Document.Reorders IsDefault d d') :
    decode? d = decode? d' := by
  unfold decode?
  refine Document.bind_record?_eq h fun field other halike => ?_
  have hstring (name value : String) (hname : name ∈ fieldNames)
      (hdefault : ∀ d, IsDefault name d → d.string? = some value) :
      Document.defaulted value Document.string? (field name) =
        Document.defaulted value Document.string? (other name) :=
    Document.defaulted_of_alike (halike name hname) (fun _ _ => Document.string?_of_reorders)
      hdefault
  have hmaxLength :
      Document.defaulted 300 Document.uint64? (field "max_full_text_query_length") =
        Document.defaulted 300 Document.uint64? (other "max_full_text_query_length") :=
    Document.defaulted_of_alike (halike _ (by decide)) (fun _ _ => Document.uint64?_of_reorders)
      fun _ hdefault => hdefault
  have hphraseSlop : Document.defaulted 1 Document.uint32? (field "phrase_rescore_slop") =
      Document.defaulted 1 Document.uint32? (other "phrase_rescore_slop") :=
    Document.defaulted_of_alike (halike _ (by decide)) (fun _ _ => Document.uint32?_of_reorders)
      fun _ hdefault => hdefault
  have hprofileParams :
      Document.defaulted .empty (Document.table? Document.string?)
          (field "profile_context_params") =
        Document.defaulted .empty (Document.table? Document.string?)
          (other "profile_context_params") :=
    Document.defaulted_of_alike (halike _ (by decide))
      (fun _ _ => Document.table?_of_reorders fun _ _ => Document.string?_of_reorders)
      fun _ hdefault => hdefault
  simp only [hmaxLength, hphraseSlop, hprofileParams,
    hstring "namespace_field" "namespace" (by decide) fun _ hdefault => hdefault,
    hstring "all_field" "all" (by decide) fun _ hdefault => hdefault,
    hstring "title_field" "title" (by decide) fun _ hdefault => hdefault,
    hstring "profile_context" "default" (by decide) fun _ hdefault => hdefault]

/-- A change to stored settings. -/
inductive Edits : Document → Document → Prop
  | reorder {d d' : Document} : d.Reorders d' → Edits d d'
  | adjust {d d' : Document} : Document.Adjusts fieldNames IsDefault d d' → Edits d d'

theorem decode?_of_edits {d d' : Document} (h : Edits d d') : decode? d' = decode? d := by
  cases h with
  | reorder h => exact (decode?_of_sameRecord (Document.sameRecord_of_reorders h)).symm
  | adjust h => exact (decode?_of_sameRecord (Document.sameRecord_of_adjusts .refl h)).symm

end Settings

end SearchCompiler
