import DataLayout.Proofs.Agreement

/-!
# Output depends on what is used

Of the files that a file includes, its output shows the extents of the structs that its own structs
contain and the values of the constants that its own constants mention. All else in them can be
different.
-/

set_option autoImplicit false

namespace DataLayout

namespace CompilationUnit

variable {u₁ u₂ v₁ v₂ : CompilationUnit}

theorem SameDrafts.same_output (h : SameDrafts v₁ v₂) (h₁ : u₁.resolve = .done v₁)
    (h₂ : u₂.resolve = .done v₂) (huses : v₁.SameUses v₂) : SameOutput v₁ v₂ := by
  obtain ⟨extent₁, hr₁⟩ := resolve_spec h₁
  obtain ⟨extent₂, hr₂⟩ := resolve_spec h₂
  have hincluded : AgreeIncluded v₁ v₂ extent₁ extent₂ := by
    intro s hs t₁ ht₁ t₂ ht₂ hpart hn hi₁ hi₂
    have he := huses.structs s hs t₁ ht₁ t₂ ht₂ hpart hn hi₁ hi₂
    rw [(hr₁.placed t₁ ht₁).extent, (hr₂.placed t₂ ht₂).extent, Option.some.injEq,
      ← hr₁.laid_out.layout t₁ ht₁, ← hr₂.laid_out.layout t₂ ht₂, ← hn] at he
    exact he
  have hstructs := h.own_structs_eq (h.drafts_eq h₁ h₂) hr₁ hr₂ hincluded
  refine ⟨?_, ?_, ?_⟩
  · simp only [own] at hstructs ⊢
    rw [h.filename, h.includes, h.constants, h.functions, hstructs, resolved_of_resolve h₁,
      resolved_of_resolve h₂]
  · obtain ⟨values₁, hs₁, _⟩ := hr₁.values_to_int
    obtain ⟨values₂, hs₂, _⟩ := hr₂.values_to_int
    rw [hr₁.local_values, hr₂.local_values, ← h.constants]
    congr 1
    apply List.map_congr_left
    intro c hc
    obtain ⟨hmem, hflag⟩ := List.mem_filter.mp hc
    have hown : c.included = false := by simpa using hflag
    obtain ⟨x₁, hx₁, hv₁⟩ := hr₁.constant_value? hs₁ hmem
    obtain ⟨x₂, hx₂, hv₂⟩ := hr₂.constant_value? hs₂ (h.mem_constants hmem hown)
    have hvalue := h.values_agree hr₁ hr₂ huses hs₁ hs₂ c hmem hown
    rw [hx₁, hx₂, Int64.toInt_inj.mp (hv₁.trans (hvalue.trans hv₂.symm))]
  · intro s₁ hs₁ s₂ hs₂ f₁ hf₁ f₂ hf₂ hty
    exact h.sizes_agree hr₁ hr₂ hincluded hs₁ hs₂ hf₁ hf₂ hty

end CompilationUnit

/-- Two stores with the same root file give the same output in every format if the root file uses
the same extents and values in both, whatever else the included files hold. -/
theorem compile_output_eq {sources₁ sources₂ : Sources} {path₁ path₂ : String}
    {root₁ root₂ : Source} (hroot₁ : sources₁.fetch none path₁ = .ok root₁)
    (hroot₂ : sources₂.fetch none path₂ = .ok root₂) (hname : root₁.name = root₂.name)
    (htext : root₁.text = root₂.text) {u₁ u₂ : CompilationUnit}
    (h₁ : compile sources₁ path₁ = .ok u₁) (h₂ : compile sources₂ path₂ = .ok u₂)
    (huses : u₁.SameUses u₂) (format : Format) :
    ∃ text, format.text u₁ = .ok text ∧ format.text u₂ = .ok text := by
  obtain ⟨source₁, w₁, hs₁, hl₁, hr₁⟩ := compile_eq_ok.mp h₁
  obtain ⟨source₂, w₂, hs₂, hl₂, hr₂⟩ := compile_eq_ok.mp h₂
  cases hs₁.symm.trans hroot₁
  cases hs₂.symm.trans hroot₂
  have he₁ := CompilationUnit.enriches_of_resolve hr₁
  have he₂ := CompilationUnit.enriches_of_resolve hr₂
  have hn₁ : u₁.Numbered := he₁.numbered (Loader.load_to_numbered hl₁)
  have hn₂ : u₂.Numbered := he₂.numbered (Loader.load_to_numbered hl₂)
  have hdrafts := CompilationUnit.SameDrafts.of_own_eq he₁ he₂
    (Loader.load_to_own_eq hl₁ hl₂ hname htext)
  have hsame := hdrafts.same_output hr₁ hr₂ huses
  obtain ⟨extent, hres⟩ := CompilationUnit.resolve_spec hr₁
  obtain ⟨pieces, hp⟩ :=
    (hres.complete hn₁).exists_pieces (CompilationUnit.resolved_of_resolve hr₁) format
  obtain ⟨text, ht, _⟩ := Format.emit_unlimited hp
  refine ⟨text, ht, ?_⟩
  rw [Format.text, ← hsame.pieces hn₁ hn₂ format]
  exact ht

def sharedRoot : String := "include\"b\"struct A\x7bB b;void()*f;\x7dconst K=N"

def plainSources : MemorySources := ⟨[("a", sharedRoot), ("b", "const N=2 struct B\x7bu8 x;\x7d")]⟩

/-- Another file to include, which includes a third one and declares more. -/
def richSources : MemorySources :=
  ⟨[("a", sharedRoot), ("b", "include\"c\"struct B\x7bY y;\x7dconst N=2"),
    ("c", "struct Y\x7bu8 v;\x7dstruct Z\x7bu8()*h;\x7d")]⟩

def plainUnit : CompilationUnit :=
  ⟨"a", ["b"],
    [⟨⟨"b", 1⟩, "B", [⟨⟨"b", 1⟩, "x", .primitive .u8, none⟩], true, none⟩,
      ⟨⟨"a", 1⟩, "A", [⟨⟨"a", 1⟩, "b", .struct ⟨⟨"a", 1⟩, "B", none⟩, none⟩,
        ⟨⟨"a", 1⟩, "f", .pointer (.function 0), none⟩], false, none⟩],
    [⟨⟨"b", 1⟩, "N", .literal ⟨"b", 1⟩ 2, true⟩, ⟨⟨"a", 1⟩, "K", .constant ⟨"a", 1⟩ "N", false⟩],
    [⟨⟨"a", 1⟩, .void, [], false⟩], [], false⟩

def richUnit : CompilationUnit :=
  ⟨"a", ["b"],
    [⟨⟨"c", 1⟩, "Y", [⟨⟨"c", 1⟩, "v", .primitive .u8, none⟩], true, none⟩,
      ⟨⟨"c", 1⟩, "Z", [⟨⟨"c", 1⟩, "h", .pointer (.function 0), none⟩], true, none⟩,
      ⟨⟨"b", 1⟩, "B", [⟨⟨"b", 1⟩, "y", .struct ⟨⟨"b", 1⟩, "Y", none⟩, none⟩], true, none⟩,
      ⟨⟨"a", 1⟩, "A", [⟨⟨"a", 1⟩, "b", .struct ⟨⟨"a", 1⟩, "B", none⟩, none⟩,
        ⟨⟨"a", 1⟩, "f", .pointer (.function 1), none⟩], false, none⟩],
    [⟨⟨"b", 1⟩, "N", .literal ⟨"b", 1⟩ 2, true⟩, ⟨⟨"a", 1⟩, "K", .constant ⟨"a", 1⟩ "N", false⟩],
    [⟨⟨"c", 1⟩, .primitive .u8, [], true⟩, ⟨⟨"a", 1⟩, .void, [], false⟩], [], false⟩

theorem compile_output_eq_shared : ∃ u₁ u₂, compile plainSources.sources "a" = .ok u₁ ∧
    compile richSources.sources "a" = .ok u₂ ∧ u₁.structs.map Struct.name = ["B", "A"] ∧
    u₂.structs.map Struct.name = ["B", "Y", "Z", "A"] ∧ u₁.SameUses u₂ ∧
    ∀ format : Format, ∃ text, format.text u₁ = .ok text ∧ format.text u₂ = .ok text := by
  have hload₁ : plainSources.sources.loaded? "a" = some plainUnit := by decide +kernel
  have hload₂ : richSources.sources.loaded? "a" = some richUnit := by decide +kernel
  have hrun : (plainUnit.resolve.failure == none && richUnit.resolve.failure == none &&
      (plainUnit.resolve.state.structs.map Struct.name == ["B", "A"] &&
        (richUnit.resolve.state.structs.map Struct.name == ["B", "Y", "Z", "A"] &&
          decide (plainUnit.resolve.state.SameUses richUnit.resolve.state)))) = true := by cbv
  simp only [Bool.and_eq_true, beq_iff_eq, decide_eq_true_iff] at hrun
  obtain ⟨⟨hdone₁, hdone₂⟩, hnames₁, hnames₂, huses⟩ := hrun
  have hc₁ := compile_of_load hload₁ (Progress.eq_done hdone₁)
  have hc₂ := compile_of_load hload₂ (Progress.eq_done hdone₂)
  have hroot₁ : plainSources.sources.fetch none "a" = .ok ⟨"a", "a", sharedRoot⟩ := by
    decide +kernel
  have hroot₂ : richSources.sources.fetch none "a" = .ok ⟨"a", "a", sharedRoot⟩ := by
    decide +kernel
  exact ⟨_, _, hc₁, hc₂, hnames₁, hnames₂, huses,
    compile_output_eq hroot₁ hroot₂ rfl rfl hc₁ hc₂ huses⟩

end DataLayout
