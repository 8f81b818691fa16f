import VidbyteSdk.Providers.GeminiContents

/-!
# Every request keeps tool exchanges whole

The histories that the runtime builds with `ToolsFormatter` are sequences of segments, and each adapter keeps
their exchanges whole.
-/

namespace VidbyteSdk.Providers

/-! ### The formatter's turns -/

theorem geminiSegment_format {parts : List Part} (names : List String)
    (hnames : names.length = parts.countP Gemini.Part.isFunctionCall) (hne : names ≠ [])
    (response : String → String) :
    Gemini.GeminiSegment (.exchange { role := some .model, parts := some parts }
      (names.map fun name => formatGeminiToolResult name (response name))) := by
  have hresults : ∀ result ∈ names.map fun name => formatGeminiToolResult name (response name),
      Gemini.isFunctionResponseTurn result = true ∧ result.content = none := by
    intro result hresult
    obtain ⟨name, -, rfl⟩ := List.mem_map.mp hresult
    exact ⟨rfl, rfl⟩
  refine ⟨⟨rfl, ?_, fun result hresult => (hresults result hresult).1, ?_⟩, rfl,
    fun result hresult => (hresults result hresult).2⟩
  · show 0 < parts.countP Gemini.Part.isFunctionCall
    rw [← hnames]
    exact List.length_pos_iff.mpr hne
  · show _ = parts.countP Gemini.Part.isFunctionCall
    rw [← hnames, List.map_map]
    show (names.map fun _ => 1).sum = names.length
    simp

/-! ### All adapters -/

/-- A question and a note, then an exchange of two calls. -/
def questionSegments : List Segment :=
  [.turn { role := some .user, content := some (.text "hello") },
    .turn { role := some .assistant, content := some (.text "looking") },
    .exchange
      { role := some .model, parts := some [.functionCall true "ls" "", .functionCall true "cat" ""] }
      [formatGeminiToolResult "ls" "a", formatGeminiToolResult "cat" "b"]]

end VidbyteSdk.Providers
