import HexAtlas.Proofs.Command.InstanceToken
import HexAtlas.Proofs.Scene.DeclaredIds
import HexAtlas.Proofs.Theme

namespace HexAtlas
namespace Chart

theorem scope_local {name : String} {text : List Char} (own : (readOptions (lines text)).global = false)
    (given : Theme) :
    (compileThemed (instanceToken name) text given).scope = .ofInstance (instanceToken name) false := by
  rw [scope_compileThemed, own]

/-- What a map with its own names gives out carries its token. -/
theorem MarkedId.exists_apply_token {name : String} {text : List Char} {given : Theme}
    (own : (readOptions (lines text)).global = false) {i : String}
    (h : (compileThemed (instanceToken name) text given).MarkedId i) :
    ∃ base, i = (NameScope.ofInstance (instanceToken name) false).apply base := by
  have token := isToken_instanceToken name
  have scope := @scope_local name text own given
  have mark : IsMark (compileThemed (instanceToken name) text given).scope.ending.toList := by
    rw [scope, NameScope.ending_ofInstance token.nonempty]
    exact token.isMark
  obtain ⟨base, rfl⟩ := h.exists_apply (named_compileThemed _ text given) mark
  exact ⟨base, by rw [scope]⟩

/-- The drawings of two maps with different tokens and no global names declare different identifiers exactly if no
identifier from an attribute list of one map is declared in the drawing of the other. -/
theorem disjoint_declaredIds_iff {name₁ name₂ : String} (apart : instanceToken name₁ ≠ instanceToken name₂)
    {text₁ text₂ : List Char} (own₁ : (readOptions (lines text₁)).global = false)
    (own₂ : (readOptions (lines text₂)).global = false) (theme₁ theme₂ : Theme) (viewport₁ viewport₂ : Viewport) :
    let c₁ := compileThemed (instanceToken name₁) text₁ theme₁
    let c₂ := compileThemed (instanceToken name₂) text₂ theme₂
    (∀ i ∈ (c₁.scene viewport₁).declaredIds, i ∉ (c₂.scene viewport₂).declaredIds) ↔
      ∀ i, (c₁.StyledId i → ¬c₂.StyledId i ∧ ¬c₂.MarkedId i) ∧ (c₂.StyledId i → ¬c₁.MarkedId i) := by
  intro c₁ c₂
  have named₁ : c₁.Named := named_compileThemed _ text₁ theme₁
  have named₂ : c₂.Named := named_compileThemed _ text₂ theme₂
  have marked : ∀ i, c₁.MarkedId i → ¬c₂.MarkedId i := by
    intro i inFirst inSecond
    obtain ⟨base₁, first⟩ := inFirst.exists_apply_token own₁
    obtain ⟨base₂, second⟩ := inSecond.exists_apply_token own₂
    exact apart
      ((isToken_instanceToken name₁).eq_of_apply_eq (isToken_instanceToken name₂) (first.symm.trans second))
  simp only [mem_declaredIds_scene named₁, mem_declaredIds_scene named₂, not_or]
  constructor
  · intro disjoint i
    exact ⟨fun styled => (disjoint i (Or.inr styled)).symm, fun styled inFirst =>
      (disjoint i (Or.inl inFirst)).2 styled⟩
  · rintro condition i (inFirst | styled)
    · exact ⟨marked i inFirst, fun styled => (condition i).2 styled inFirst⟩
    · exact ((condition i).1 styled).symm

/-- One map has an identifier of its own for outlines, the other a raw definition and a labelled path. -/
theorem disjoint_declaredIds_iff_north :
    let north := "default attributes id=\"hill\"\n0101 hill".toList
    let south := "<g id=\"hill\"/>\n0101 hill\n0101 road \"x\" left 0102".toList
    let c₁ := compileThemed (instanceToken "North") north .plain
    let c₂ := compileThemed (instanceToken "South") south .plain
    instanceToken "North" ≠ instanceToken "South" ∧ (readOptions (lines north)).global = false ∧
      (readOptions (lines south)).global = false ∧
      (∀ i ∈ (c₁.scene .standard).declaredIds, i ∉ (c₂.scene .standard).declaredIds) ∧
      ∀ i, (c₁.StyledId i → ¬c₂.StyledId i ∧ ¬c₂.MarkedId i) ∧ (c₂.StyledId i → ¬c₁.MarkedId i) := by
  intro north south c₁ c₂
  have apart : instanceToken "North" ≠ instanceToken "South" := by decide +kernel
  have own₁ : (readOptions (lines north)).global = false := by decide +kernel
  have own₂ : (readOptions (lines south)).global = false := by decide +kernel
  have disjoint : ∀ i ∈ (c₁.scene .standard).declaredIds, i ∉ (c₂.scene .standard).declaredIds := by decide +kernel
  exact ⟨apart, own₁, own₂, disjoint,
    (disjoint_declaredIds_iff apart own₁ own₂ .plain .plain .standard .standard).mp disjoint⟩

/-- An identifier from an attribute list is declared as it is, by every map that has it. -/
theorem not_disjoint_declaredIds_given :
    let source := "default attributes id=\"dup\"\n0101 x\n".toList
    instanceToken "a" ≠ instanceToken "b" ∧ (readOptions (lines source)).global = false ∧
      "dup" ∈ ((compileThemed (instanceToken "a") source .plain).scene .standard).declaredIds ∧
      "dup" ∈ ((compileThemed (instanceToken "b") source .plain).scene .standard).declaredIds := by
  decide +kernel

end Chart
end HexAtlas
