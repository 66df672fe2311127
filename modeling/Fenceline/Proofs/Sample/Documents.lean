import Fenceline.Proofs.Distinct
import Fenceline.Sample.Patching

/-!
# Samples by their documents

The samples that were written to files are handed to a pool document by document, each document once, in the order of
their first samples.

**The laws.** `map_byDocument`, `mem_of_mem_byDocument`: the documents, and the samples that go with each of them.
`byDocument_filter`: leaving out the samples of one document leaves out this document and nothing else.
-/

namespace Fenceline

namespace Sample

variable {samples : List Sample} {document : Path}

/-- The samples that were written to files. -/
def stored (samples : List Sample) : List Sample :=
  samples.filter (·.path.isSome)

/-- Their documents, in the order of each document's first sample. -/
def documents (samples : List Sample) : List Path :=
  ((stored samples).map (·.file)).eraseDups

theorem byDocument_eq (samples : List Sample) :
    byDocument samples = (documents samples).map fun d => (d, (stored samples).filter (·.file == d)) :=
  rfl

theorem mem_documents_iff : document ∈ documents samples ↔ ∃ x ∈ stored samples, x.file = document := by
  rw [documents, List.mem_eraseDups, List.mem_map]

theorem map_byDocument (samples : List Sample) : (byDocument samples).map (·.1) = documents samples := by
  rw [byDocument_eq, List.map_map]
  exact List.map_id _

/-- The samples that go with a document are the stored ones that stand in it. -/
theorem mem_of_mem_byDocument {d : Path × List Sample} (h : d ∈ byDocument samples) :
    d.1 ∈ documents samples ∧ ∀ x ∈ d.2, x ∈ stored samples ∧ x.file = d.1 := by
  obtain ⟨document, hdocument, rfl⟩ := List.mem_map.1 h
  refine ⟨hdocument, fun x hx => ?_⟩
  obtain ⟨hstored, hfile⟩ := List.mem_filter.1 hx
  exact ⟨hstored, eq_of_beq hfile⟩

/-! ## The samples of the other documents -/

section others

variable (samples : List Sample) (document : Path)

theorem stored_filter :
    stored (samples.filter (·.file ≠ document)) = (stored samples).filter (·.file ≠ document) :=
  List.filter_comm _ _ _

theorem documents_filter :
    documents (samples.filter (·.file ≠ document)) = (documents samples).filter (· ≠ document) := by
  rw [documents, stored_filter, documents, ← eraseDups_filter, List.filter_map]
  rfl

theorem byDocument_filter :
    byDocument (samples.filter (·.file ≠ document)) = (byDocument samples).filter (·.1 ≠ document) := by
  rw [byDocument_eq, byDocument_eq, documents_filter, stored_filter, List.filter_map]
  refine List.map_congr_left fun other hother => ?_
  have hne : other ≠ document := by simpa using (List.mem_filter.1 hother).2
  rw [List.filter_filter]
  refine congrArg _ (List.filter_congr fun x _ => ?_)
  by_cases hx : x.file = other <;> simp [hx, hne]

end others

/-! ## What is handed to the pool -/

/-- A document is handed to the pool once, with all of its samples. -/
theorem eq_of_mem_byDocument {d e : Path × List Sample} (hd : d ∈ byDocument samples) (he : e ∈ byDocument samples)
    (h : d.1 = e.1) : d = e := by
  obtain ⟨document, _, rfl⟩ := List.mem_map.1 hd
  obtain ⟨other, _, rfl⟩ := List.mem_map.1 he
  obtain rfl : document = other := h
  rfl

/-- What holds of the files and the documents of samples holds of what is handed to the pool. -/
theorem forall_mem_byDocument {P : Path → Prop} (h : ∀ x ∈ samples, ∀ p, x.path = some p → P p ∧ P x.file) :
    ∀ d ∈ byDocument samples, P d.1 ∧ ∀ x ∈ d.2, ∀ p, x.path = some p → P p := by
  intro d hd
  obtain ⟨hdocument, hsamples⟩ := mem_of_mem_byDocument hd
  obtain ⟨first, hfirst, hfile⟩ := mem_documents_iff.1 hdocument
  obtain ⟨hmem, hstored⟩ := List.mem_filter.1 hfirst
  obtain ⟨path, hpath⟩ := Option.isSome_iff_exists.1 hstored
  refine ⟨hfile ▸ (h first hmem path hpath).2, fun x hx p hp => ?_⟩
  exact (h x (List.mem_filter.1 (hsamples x hx).1).1 p hp).1

end Sample

end Fenceline
