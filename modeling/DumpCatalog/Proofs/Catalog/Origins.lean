import DumpCatalog.Proofs.Catalog.Grammar
import DumpCatalog.Proofs.Catalog.Groups
import DumpCatalog.Proofs.Packing.Records

/-! # Catalogs: where they come from

Every catalog is made by adding records to an empty one, also one that is read (`built_of_read`) or
made of a plan (`built_of_ofPlan`). So its groups describe its records (`grouped_of_origin`). -/

namespace DumpCatalog.Catalog

/-- What adding records to an empty catalog comes to. -/
def Built (catalog : Catalog) : Prop := ∃ header records, catalog = ofRecords header records

theorem built_of_read {source : Source} {catalog : Catalog}
    (h : (read source).1.outcome = .ok catalog) : catalog.Built := by
  obtain ⟨_, _, _, written, -⟩ := parses_of_read h
  obtain ⟨header, records, -, -, same⟩ := written.decoded
  exact ⟨header, records, same⟩

theorem built_of_ofPlan {plan : Plan} {n : Int32} {catalog : Catalog}
    (h : (ofPlan plan n).outcome = .ok catalog) : catalog.Built := by
  obtain ⟨records, -, same⟩ := outcome_ofPlan_eq_ok_iff.mp h
  exact ⟨Header.new n, records, same⟩

theorem grouped_of_origin {catalog : Catalog}
    (origin : catalog.Built ∨ ∃ source, (read source).1.outcome = .ok catalog) :
    catalog.Grouped := by
  have built : catalog.Built := by
    rcases origin with built | ⟨source, given⟩
    · exact built
    · exact built_of_read given
  obtain ⟨header, records, rfl⟩ := built
  exact grouped_ofRecords header records

end DumpCatalog.Catalog
