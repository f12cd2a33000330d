import KwNet.Https.Matching

/-!
# Response headers

`on_header_field` appends to a copy of `cur_header_field`, so that field stays empty and neither it nor
`on_header_complete` ever stores a header.

* `lastValue` — what a header map should hold under a name;
* **`headers_survive`** — the headers of a response arrive exactly when it has none;
* **`header_lost`** — one header is enough.
-/

namespace KwNet.Https

/-- The value of the last header of a name. -/
def lastValue (hs : List (Str × Str)) (f : Str) : Option Str := (hs.filter fun h => h.1 = f).getLast?.map Prod.snd

/-- `response.headers` maps every name to the value of its last occurrence, and holds nothing else. -/
def Survived (hs : List (Str × Str)) (r : Response) : Prop := ∀ f v, (f, v) ∈ r.headers ↔ lastValue hs f = some v

/-- Whatever the parser fires, no header is stored. -/
theorem no_header_stored (es : List ParserEvent) (d : Decoder) (hfield : d.curHeaderField = []) :
    (es.foldl Decoder.on d).response.headers = d.response.headers := by
  rw [(decode_response es d hfield).2]

/-- **Which headers survive.**  However llhttp cuts the names and values into pieces: after `on_header_complete` the
header map is the one of the response exactly when the response has no headers. -/
theorem headers_survive (hs : List (Str × Str)) (es : List ParserEvent) (h : HeaderEvents hs es)
    (d : Decoder) (hfield : d.curHeaderField = []) (hempty : d.response.headers = []) :
    Survived hs ((es ++ [ParserEvent.headersComplete]).foldl Decoder.on d).response ↔ hs = [] := by
  have hstored := no_header_stored (es ++ [ParserEvent.headersComplete]) d hfield
  rw [hempty] at hstored
  constructor
  · intro hsurvived
    cases h with
    | nil => rfl
    | @cons rest es' names values hnames hvalues h =>
      -- the name of the first header has a last value, which is not stored
      have hmem : (names.flatten, values.flatten) ∈
          ((names.flatten, values.flatten) :: rest).filter fun h => h.1 = names.flatten :=
        List.mem_filter.mpr ⟨List.mem_cons_self, decide_eq_true rfl⟩
      obtain ⟨last, hlast⟩ := Option.isSome_iff_exists.mp (List.getLast?_isSome.mpr (List.ne_nil_of_mem hmem))
      have hvalue : lastValue ((names.flatten, values.flatten) :: rest) names.flatten = some last.2 := by
        rw [lastValue, hlast, Option.map_some]
      have hin := (hsurvived names.flatten last.2).mpr hvalue
      rw [hstored] at hin
      cases hin
  · rintro rfl f v
    rw [hstored]
    constructor
    · intro hin
      cases hin
    · intro hvalue
      cases hvalue

theorem headers_survive_none :
    Survived [] (([] ++ [ParserEvent.headersComplete]).foldl Decoder.on .fresh).response :=
  (headers_survive [] [] .nil .fresh rfl rfl).mpr rfl

/-- **A header is lost.** -/
theorem header_lost :
    ¬ ∀ (hs : List (Str × Str)) (es : List ParserEvent), HeaderEvents hs es → (∀ p ∈ hs, p.1 ≠ []) →
      Survived hs ((es ++ [ParserEvent.headersComplete]).foldl Decoder.on .fresh).response := by
  intro hall
  have hevents : HeaderEvents [("a".toList, "b".toList)] [.headerField "a".toList, .headerValue "b".toList] :=
    .cons ["a".toList] ["b".toList] (by decide) (by decide) .nil
  have hsurvived := hall _ _ hevents (by decide) "a".toList "b".toList
  exact absurd (hsurvived.mpr (by decide)) (by decide)

end KwNet.Https
