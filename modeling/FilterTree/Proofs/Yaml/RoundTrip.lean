import FilterTree.Proofs.Yaml.Built
import FilterTree.Proofs.Yaml.Drawn
import FilterTree.Proofs.Yaml.Written

/-! Documents are read back. The text of a layout is read as a value with the property that the layout is
drawn for. -/

namespace FilterTree.Yaml

/-- A list of values is read from what is written of its layout. The text is one line or several, and begins
with the mark of an item, unless the list is empty. -/
theorem DrawsAll.exists_read {Q : List Value → Prop} {xs : List Sketch} (h : DrawsAll 0 Q xs) :
    ∃ l vs cs, read (write (.sequence xs none)) = .ok l ∧ l.unfolded = .list vs ∧ Q vs ∧
      Value.AreStored vs ∧ (write (.sequence xs none)).toList = cs ++ ['\n'] ∧ EndsInLine cs ∧
      (Q [] ∧ cs = ['[', ']'] ∨ ∃ w, cs = '-' :: ' ' :: w) := by
  obtain ⟨cs, f, known, htext, hends, hbegin, htokens, hform⟩ := h.exists_write
  obtain ⟨table, n, hnode, v, hv, vs, rfl, hvs⟩ := Node.exists_ofTokens hform
  obtain ⟨l, d, hdocument, hvalue⟩ := Build.exists_document hv
  have hread : read (write (.sequence xs none)) = .ok l := by
    unfold read
    rw [htext, htokens, hnode]
    unfold Yields at hdocument
    change Except.map (·.1) ((Build.document n).run _) = _
    rw [hdocument]
    rfl
  refine ⟨l, vs, cs, hread, hvalue, hvs, hv.isStored, htext, hends, ?_⟩
  exact hbegin.imp_left fun ⟨hxs, hcs⟩ => ⟨h.nil_of_nil hxs, hcs⟩

end FilterTree.Yaml
