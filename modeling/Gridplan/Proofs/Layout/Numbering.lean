import Gridplan.Proofs.Layout.Agreement

namespace Gridplan.Layout

open Formula

variable {E : Engine} {contents : Cell → Datum} {b : Block} {f : Frame} {counter i : Nat}
  {input output order : String} {partitionBy : List String} {d : Direction} {frame : Datum}

theorem Shown.value_number {w : WindowFrame} (h : Shown contents w f)
    (hE : Fair E f w.partitionBy order) (hin : w.partitionBy ⊆ w.block.schema)
    (hk : w.orderBy = [⟨order, d⟩]) (ho : order ∈ w.block.schema) (hi : i < f.height) {t : Term}
    (ht : w.rank true (i + 2) = .ok t) :
    E.value contents t = some (.int ((f.partOf w.partitionBy d order i).idxOf i + 1 : Nat)) := by
  obtain ⟨-, rfl⟩ := WindowFrame.rank_eq_ok.mp ht
  have hself : f.peers w.partitionBy i i = true := (h.housed.filled.peers_iff hin hi hi).mpr rfl
  rw [if_pos rfl, Engine.value_plus (h.value_order hE hin hk ho hi true)
    (h.value_ties hE hin hk ho hi), Frame.partOf, Ranking.idxOf_filter_sort hi hself,
    ← Ranking.countP_before_add_ties hi hself]
  rfl

end Gridplan.Layout
