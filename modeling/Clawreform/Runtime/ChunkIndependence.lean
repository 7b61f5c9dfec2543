import Clawreform.Lib.Splitting
import Clawreform.Runtime.ProviderAnswer

namespace Clawreform.Runtime.ChunkIndependence

open Clawreform.Lib.Text Clawreform.Lib.Find Clawreform.Lib.Splitting Clawreform.Lib.LineEnds
open Clawreform.Lib.Run Clawreform.Lib.Utf8 ProviderAnswer
open Clawreform.Lib.Json (Value)
open Clawreform.Lib.Json.Value
open Clawreform.Types

variable (parseJson : Str → Option Value)
  (parseResponse : Str → Option GeminiDriver.GeminiResponse) (newUuid : Nat → Str)

/-- What a driver makes of the text it has read, with all its events. -/
def streamTexts (p : Provider) (texts : List Str) : CompletionResponse × List StreamEvent :=
  match p with
  | .openAi => OpenAiDriver.streamTexts parseJson texts
  | .anthropic => AnthropicDriver.streamTexts parseJson texts
  | .gemini => GeminiDriver.streamTexts parseResponse newUuid texts

def stream (p : Provider) (chunks : List (List UInt8)) : CompletionResponse × List StreamEvent :=
  match p with
  | .openAi => OpenAiDriver.stream parseJson chunks
  | .anthropic => AnthropicDriver.stream parseJson chunks
  | .gemini => GeminiDriver.stream parseResponse newUuid chunks

/-- The line ends a driver looks for: Anthropic and Gemini know no other blank line than two
newlines. -/
def ReadsEnds (p : Provider) (ends : LineEnd) (t : Str) : Prop :=
  ends = .lf ∨ p = .openAi ∨ find ['\n', '\n'] t = none

variable {parseJson parseResponse newUuid} {t : Str}

theorem stream_eq (p : Provider) (chunks : List (List UInt8)) :
    stream parseJson parseResponse newUuid p chunks =
      streamTexts parseJson parseResponse newUuid p (chunks.map fromUtf8Lossy) := by
  cases p <;> rfl

/-- Only the whole text counts. -/
theorem streamTexts_flatten (p : Provider) {texts texts' : List Str}
    (h : texts.flatten = texts'.flatten) :
    streamTexts parseJson parseResponse newUuid p texts =
      streamTexts parseJson parseResponse newUuid p texts' := by
  cases p with
  | openAi =>
    simp only [streamTexts, OpenAiDriver.streamTexts]
    rw [feed_nil (by simp), feed_nil (by simp), h]
  | anthropic =>
    simp only [streamTexts, AnthropicDriver.streamTexts]
    rw [feed_nil (by simp), feed_nil (by simp), h]
  | gemini =>
    simp only [streamTexts, GeminiDriver.streamTexts]
    rw [feed_nil (by simp), feed_nil (by simp), h]

theorem trimEnd_return (s : Str) : trimEnd (s ++ ['\r']) = trimEnd s := by
  have hspace : isWhitespace '\r' = true := by decide
  simp [trimEnd, hspace]

/-- Carriage returns are trimmed away with the blanks. -/
theorem streamTexts_returns (t : Str) :
    OpenAiDriver.streamTexts parseJson [withReturns t] =
      OpenAiDriver.streamTexts parseJson [t] := by
  have hlines : ((split ['\n'] t).1.map (· ++ ['\r'])).map trimEnd =
      (split ['\n'] t).1.map trimEnd := by
    rw [List.map_map]
    congr 1
    funext s
    exact trimEnd_return s
  simp only [OpenAiDriver.streamTexts]
  rw [feed_nil (by simp), feed_nil (by simp), List.flatten_singleton, List.flatten_singleton,
    split_withReturns, hlines]

/-- Behind carriage returns Anthropic and Gemini find no event at all. -/
theorem streamTexts_unread {p : Provider} (hp : p ≠ .openAi)
    (h : find ['\n', '\n'] t = none) :
    streamTexts parseJson parseResponse newUuid p [t] =
      streamTexts parseJson parseResponse newUuid p [] := by
  have hsplit : feed ['\n', '\n'] [] [t] = ([], t) := by
    rw [feed_nil (by simp), List.flatten_singleton, split_none h]
  cases p with
  | openAi => exact absurd rfl hp
  | anthropic =>
    simp only [streamTexts, AnthropicDriver.streamTexts]
    rw [hsplit]
    rfl
  | gemini =>
    simp only [streamTexts, GeminiDriver.streamTexts]
    rw [hsplit]
    rfl

theorem streamTexts_write {p : Provider} {ends : LineEnd} (h : ReadsEnds p ends t) :
    streamTexts parseJson parseResponse newUuid p [ends.write t] =
      streamTexts parseJson parseResponse newUuid p [t] := by
  cases ends with
  | lf => rfl
  | crlf =>
    by_cases hp : p = .openAi
    · subst hp
      exact streamTexts_returns t
    · have hblank : find ['\n', '\n'] t = none := (h.resolve_left (by simp)).resolve_left hp
      rw [LineEnd.write, streamTexts_unread hp (find_blank_withReturns t),
        streamTexts_unread hp hblank]

/-- Chunks that split no character, with line ends that the driver reads, come to the same as
the whole text at once. -/
theorem stream_chunks (p : Provider) (ends : LineEnd) {chunks : List (List UInt8)}
    (hbytes : chunks.flatten = encode (ends.write t)) (hwhole : ∀ chunk ∈ chunks, IsUtf8 chunk)
    (hends : ReadsEnds p ends t) :
    stream parseJson parseResponse newUuid p chunks =
      stream parseJson parseResponse newUuid p [encode t] := by
  have htexts : (chunks.map fromUtf8Lossy).flatten = [ends.write t].flatten := by
    rw [flatten_fromUtf8Lossy hwhole, hbytes, fromUtf8Lossy_encode, List.flatten_singleton]
  have hone : [encode t].map fromUtf8Lossy = [t] := by
    rw [List.map_singleton, fromUtf8Lossy_encode]
  rw [stream_eq, stream_eq, hone, streamTexts_flatten p htexts, streamTexts_write hends]

section Inputs

def accentValue (s : Str) : Value :=
  obj [("choices", .array [obj [("delta", obj [("content", .string s)])]])]

def readAccent (t : Str) : Option Value :=
  if t = (accentValue ['é']).toText then some (accentValue ['é'])
  else if t = (accentValue ['\uFFFD', '\uFFFD']).toText then
    some (accentValue ['\uFFFD', '\uFFFD'])
  else none

/-- A letter of two bytes. -/
def accent : Str := sse [dataLine (accentValue ['é']).toText]

/-- The second of the two bytes comes later. -/
def accentChunks : List (List UInt8) := [(encode accent).take 40, (encode accent).drop 40]

def greeting : Str :=
  (obj [("candidates", .array [obj [("content", obj [("parts",
    .array [obj [("text", .string "Hello".toList)]])])]])]).toText

def readGreeting (t : Str) : Option GeminiDriver.GeminiResponse :=
  if t = greeting then some ⟨[⟨some ⟨none, [.text "Hello".toList]⟩, none⟩], none⟩ else none

end Inputs

theorem stream_chunks_accent :
    stream readAccent (fun _ => none) showNat .openAi [encode (withReturns accent)] =
      stream readAccent (fun _ => none) showNat .openAi [encode accent] :=
  stream_chunks .openAi .crlf (List.flatten_singleton ..)
    (List.forall_mem_singleton.mpr ⟨_, rfl⟩) (.inr (.inl rfl))

/-- Two replacement characters come instead of the letter, and Gemini's greeting is not seen
behind carriage returns. -/
theorem letter_split : accentChunks.flatten = encode (LineEnd.lf.write accent) ∧
    stream readAccent (fun _ => none) showNat .openAi accentChunks ≠
      stream readAccent (fun _ => none) showNat .openAi [encode accent] ∧
    stream (fun _ => none) readGreeting showNat .gemini
        [encode (LineEnd.crlf.write (sse [dataLine greeting]))] ≠
      stream (fun _ => none) readGreeting showNat .gemini [encode (sse [dataLine greeting])] := by
  decide +kernel

end Clawreform.Runtime.ChunkIndependence
