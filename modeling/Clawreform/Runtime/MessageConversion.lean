import Clawreform.Lib.Regroup
import Clawreform.Runtime.OpenAiDriver
import Clawreform.Runtime.AnthropicDriver
import Clawreform.Runtime.GeminiDriver

namespace Clawreform.Runtime.MessageConversion

open List
open Clawreform.Lib.Text Clawreform.Lib.Regroup
open Clawreform.Lib.Json (Value)
open Clawreform.Types
open Clawreform.Runtime.OpenAiDriver
  (OaiMessage OaiMessageContent OaiContentPart OaiToolCall dataUrl)
open Clawreform.Runtime.AnthropicDriver (ApiMessage ApiContent ApiContentBlock)
open Clawreform.Runtime.GeminiDriver (GeminiContent GeminiPart)

section Pieces

/-- What a conversation says, texts character by character. A result knows the name of the
tool use it answers. -/
inductive Piece where
  | char (c : Char)
  | image (mediaType data : Str)
  | call (id name : Str) (input : Value)
  | result (id : Str) (callName : Option Str) (content : Str)
  deriving DecidableEq

/-- What a request says. Not every format has ids of calls, or names in results. -/
inductive WirePiece where
  | char (c : Char)
  | image (url : Str)
  | call (id : Option Str) (name args : Str)
  | result (id name : Option Str) (content : Str)
  deriving DecidableEq

/-- The name of the tool use with an id. -/
def nameOf (id : Str) (blocks : List ContentBlock) : Option Str :=
  blocks.findSome? fun
    | .toolUse i name _ => if i = id then some name else none
    | _ => none

/-- The pieces of a block of a message, given the blocks of the message in front of it. -/
def blockPieces (before : List ContentBlock) : ContentBlock → List Piece
  | .text text => text.map .char
  | .image mediaType data => [.image mediaType data]
  | .toolUse id name input => [.call id name input]
  | .toolResult id content _ => [.result id (nameOf id before) content]
  | .thinking _ => []
  | .unknown => []

def messagePieces (before : List ContentBlock) (m : Message) : List Piece :=
  if m.role = .system then [] else m.content.toBlocks.flatMap (blockPieces before)

/-- Every message with the blocks of the message in front of it. -/
def withBefore : List ContentBlock → List Message → List (List ContentBlock × Message)
  | _, [] => []
  | before, m :: ms => (before, m) :: withBefore m.content.blockList ms

def pieces (ms : List Message) : List Piece :=
  (withBefore [] ms).flatMap fun p => messagePieces p.1 p.2

/-- A piece of a request is one of the conversation: a result is the one of its call by the
same id or the same name. -/
def Carried : Piece → WirePiece → Prop
  | .char c, .char c' => c = c'
  | .image mediaType data, .image url => url = dataUrl mediaType data
  | .call id name input, .call id' name' args =>
    (∀ i ∈ id', i = id) ∧ name' = name ∧ args = input.toText
  | .result id callName content, .result id' name' content' =>
    content' = content ∧ (id' = some id ∨ name' ≠ none ∧ name' = callName)
  | _, _ => False

/-- A request contains the pieces of a conversation in order. -/
def Kept (ms : List Message) (wire : List WirePiece) : Prop :=
  SublistForall₂ Carried (pieces ms) wire

/-- Tool uses stand in assistant messages and results in user messages, every result answers a
tool use of the message in front of it, and every tool use but those of the last message is
answered once. -/
structure Paired (ms : List Message) : Prop where
  uses : ∀ m ∈ ms, m.role ≠ .assistant → m.toolUses = []
  results : ∀ m ∈ ms, m.role ≠ .user → m.toolResults = []
  first : ∀ m ∈ ms.head?, m.toolResults = []
  matched : ms.IsChain fun m next => ∀ id ∈ next.toolResults, id ∈ m.toolUses
  answered : ms.IsChain fun m next => ∀ id ∈ m.toolUses, next.toolResults.count id = 1

end Pieces

section Wire

def oaiPartPieces : OaiContentPart → List WirePiece
  | .text text => text.map .char
  | .imageUrl url => [.image url]

def oaiContentPieces : Option OaiMessageContent → List WirePiece
  | none => []
  | some (.text text) => text.map .char
  | some (.parts parts) => parts.flatMap oaiPartPieces

def oaiContentText : Option OaiMessageContent → Str
  | some (.text text) => text
  | _ => []

def oaiCallPiece (call : OaiToolCall) : WirePiece :=
  .call (some call.id) call.function.name call.function.arguments

def oaiPieces (m : OaiMessage) : List WirePiece :=
  if m.role = "system".toList then []
  else
    match m.toolCallId with
    | some id => [.result (some id) none (oaiContentText m.content)]
    | none => oaiContentPieces m.content ++ (m.toolCalls.getD []).map oaiCallPiece

def apiBlockPieces : ApiContentBlock → List WirePiece
  | .text text => text.map .char
  | .image source => [.image (dataUrl source.mediaType source.data)]
  | .toolUse id name input => [.call (some id) name input.toText]
  | .toolResult id content _ => [.result (some id) none content]

def apiPieces (m : ApiMessage) : List WirePiece :=
  match m.content with
  | .text text => text.map .char
  | .blocks blocks => blocks.flatMap apiBlockPieces

def geminiPartPieces : GeminiPart → List WirePiece
  | .text text => text.map .char
  | .inlineData mimeType data => [.image (dataUrl mimeType data)]
  | .functionCall name args => [.call none name args.toText]
  | .functionResponse name response =>
    [.result none (some name) (((response.get "result".toList).bind Value.asStr).getD [])]

inductive Driver where
  | openAiComplete
  | openAiStream
  | anthropic
  | gemini
  deriving DecidableEq

/-- What the request of a driver says. -/
def Driver.sent (request : CompletionRequest) : Driver → List WirePiece
  | openAiComplete => (OpenAiDriver.completeMessages request).flatMap oaiPieces
  | openAiStream => (OpenAiDriver.streamMessages request).flatMap oaiPieces
  | anthropic => (AnthropicDriver.apiMessages request).flatMap apiPieces
  | gemini => (GeminiDriver.convertMessages request.messages).flatMap
      fun content => content.parts.flatMap geminiPartPieces

end Wire

section Fits

/-- A block with nothing to show but a tool use or a result. -/
def mute : ContentBlock → Bool
  | .text text => text.isEmpty
  | .image _ _ => false
  | _ => true

def isImage : ContentBlock → Bool
  | .image _ _ => true
  | _ => false

/-- An assistant message without images, whose texts stand in front of its tool uses. -/
def CallsLast (blocks : List ContentBlock) : Prop :=
  (∀ b ∈ blocks, isImage b = false) ∧
    blocks.Pairwise fun b b' => b.toolUseId?.isSome → mute b' = true

instance (blocks : List ContentBlock) : Decidable (CallsLast blocks) :=
  inferInstanceAs (Decidable (_ ∧ _))

/-- The messages a driver's format and conversion have room for. -/
def Driver.fits : Driver → List ContentBlock × Message → Prop
  | openAiComplete, (_, m) =>
    (m.role = .user → m.toolResults ≠ [] → ∀ b ∈ m.content.blockList, mute b = true) ∧
      (m.role = .assistant → CallsLast m.content.blockList)
  | openAiStream, (_, m) =>
    (m.role = .user → ∀ b ∈ m.content.blockList, mute b = true) ∧
      (m.role = .assistant → CallsLast m.content.blockList)
  | anthropic, _ => True
  | gemini, (before, m) => m.role ≠ .system → ∀ id ∈ m.toolResults, nameOf id before = some []

end Fits

section Blocks

variable {before blocks : List ContentBlock} {b : ContentBlock}

def textWire : ContentBlock → List WirePiece
  | .text text => text.map .char
  | _ => []

/-- What a block adds to the parts of a user message. -/
def partWire : ContentBlock → List WirePiece
  | .text text => text.map .char
  | .image mediaType data => [.image (dataUrl mediaType data)]
  | _ => []

def callWire : ContentBlock → List WirePiece
  | .toolUse id name input => [.call (some id) name input.toText]
  | _ => []

def resultWire : ContentBlock → List WirePiece
  | .toolResult id content _ => [.result (some id) none content]
  | _ => []

theorem flatMap_filterMap {α β γ : Type*} (f : α → Option β) (g : β → List γ) (l : List α) :
    (l.filterMap f).flatMap g = l.flatMap fun a => ((f a).map g).getD [] := by
  induction l with
  | nil => rfl
  | cons a l ih =>
    rw [flatMap_cons, ← ih]
    cases h : f a with
    | none => rw [filterMap_cons_none h]; rfl
    | some b => rw [filterMap_cons_some h, flatMap_cons]; rfl

theorem flatMap_toolMessage (blocks : List ContentBlock) :
    (blocks.filterMap OpenAiDriver.toolMessage).flatMap oaiPieces = blocks.flatMap resultWire := by
  rw [flatMap_filterMap]
  congr 1
  funext b
  cases b <;> rfl

theorem flatMap_contentPart (blocks : List ContentBlock) :
    (blocks.filterMap OpenAiDriver.contentPart).flatMap oaiPartPieces =
      blocks.flatMap partWire := by
  rw [flatMap_filterMap]
  congr 1
  funext b
  cases b <;> rfl

theorem flatMap_textPart (blocks : List ContentBlock) :
    ((blocks.filterMap OpenAiDriver.textPart).flatten).map WirePiece.char =
      blocks.flatMap textWire := by
  rw [map_flatten, ← flatMap_def, flatMap_filterMap]
  congr 1
  funext b
  cases b <;> rfl

theorem flatMap_toolCall (blocks : List ContentBlock) :
    (blocks.filterMap OpenAiDriver.toolCall).map oaiCallPiece = blocks.flatMap callWire := by
  rw [map_eq_flatMap, flatMap_filterMap]
  congr 1
  funext b
  cases b <;> rfl

theorem oaiPieces_assistantBlocks (blocks : List ContentBlock) :
    oaiPieces (OpenAiDriver.assistantBlocks blocks) =
      blocks.flatMap textWire ++ blocks.flatMap callWire := by
  rw [← flatMap_textPart, ← flatMap_toolCall]
  show oaiContentPieces (if blocks.filterMap OpenAiDriver.textPart = [] then none else
      some (.text (blocks.filterMap OpenAiDriver.textPart).flatten)) ++
    ((if blocks.filterMap OpenAiDriver.toolCall = [] then none else
      some (blocks.filterMap OpenAiDriver.toolCall)).getD []).map oaiCallPiece = _
  congr 1
  · split
    · next h => rw [h]; rfl
    · rfl
  · split
    · next h => rw [h]; rfl
    · rfl

theorem toolMessages_eq_nil_iff (blocks : List ContentBlock) :
    blocks.filterMap OpenAiDriver.toolMessage = [] ↔
      blocks.filterMap ContentBlock.resultId? = [] := by
  rw [filterMap_eq_nil_iff, filterMap_eq_nil_iff]
  refine forall₂_congr fun b _ => ?_
  cases b <;> simp [OpenAiDriver.toolMessage, ContentBlock.resultId?]

theorem oaiPieces_plain (role : Str) (text : Str) (h : role ≠ "system".toList) :
    oaiPieces (.plain role text) = text.map .char := by
  unfold OaiMessage.plain oaiPieces
  rw [if_neg h]
  exact append_nil _

theorem oaiPieces_parts (parts : List OaiContentPart) :
    oaiPieces ⟨"user".toList, some (.parts parts), none, none⟩ = parts.flatMap oaiPartPieces := by
  unfold oaiPieces
  rw [if_neg (show "user".toList ≠ "system".toList by decide)]
  exact append_nil _

theorem oaiPieces_userBlocks (blocks : List ContentBlock) :
    (OpenAiDriver.userBlocks blocks).flatMap oaiPieces =
      if blocks.filterMap ContentBlock.resultId? = [] then blocks.flatMap partWire
      else blocks.flatMap resultWire := by
  unfold OpenAiDriver.userBlocks
  dsimp only
  by_cases hresults : blocks.filterMap OpenAiDriver.toolMessage = []
  · rw [if_pos ((toolMessages_eq_nil_iff blocks).mp hresults), hresults, ← flatMap_contentPart]
    by_cases hparts : blocks.filterMap OpenAiDriver.contentPart = []
    · rw [if_neg (by simp [hparts]), hparts]
      rfl
    · rw [if_pos ⟨hparts, rfl⟩, nil_append, flatMap_singleton, oaiPieces_parts]
  · rw [if_neg (fun h => hresults h.2), if_neg (fun h => hresults
      ((toolMessages_eq_nil_iff blocks).mpr h)), flatMap_toolMessage]

theorem length_resultWire_le (before : List ContentBlock) (b : ContentBlock) :
    (resultWire b).length ≤ (blockPieces before b).length := by
  cases b <;> simp [resultWire, blockPieces]

theorem length_partWire_le (before : List ContentBlock) (b : ContentBlock) :
    (partWire b).length ≤ (blockPieces before b).length := by
  cases b <;> simp [partWire, blockPieces]

theorem length_textCall (before : List ContentBlock) (b : ContentBlock) :
    (textWire b).length + (callWire b).length ≤ (blockPieces before b).length := by
  cases b <;> simp [textWire, callWire, blockPieces]

theorem carried_chars (text : Str) :
    Forall₂ Carried (text.map .char) (text.map .char) := by
  rw [forall₂_map_iff]
  exact fun _ _ => rfl

theorem carried_resultWire_iff (huses : b.toolUseId? = none) :
    Forall₂ Carried (blockPieces before b) (resultWire b) ↔ mute b = true := by
  cases b with
  | text text => simp [blockPieces, resultWire, mute, List.isEmpty_iff]
  | image mediaType data => simp [blockPieces, resultWire, mute]
  | toolUse id name input => cases huses
  | toolResult id content isError => simp [blockPieces, resultWire, mute, Carried]
  | thinking thinking => simp [blockPieces, resultWire, mute]
  | unknown => simp [blockPieces, resultWire, mute]

theorem carried_partWire (huses : b.toolUseId? = none) (hresults : b.resultId? = none) :
    Forall₂ Carried (blockPieces before b) (partWire b) := by
  cases b with
  | text text => exact carried_chars text
  | image mediaType data => simp [blockPieces, partWire, Carried]
  | toolUse id name input => cases huses
  | toolResult id content isError => cases hresults
  | thinking thinking => exact .nil
  | unknown => exact .nil

theorem carried_apiBlock (before : List ContentBlock) (b : ContentBlock) :
    Forall₂ Carried (blockPieces before b)
      (((AnthropicDriver.apiBlock b).map apiBlockPieces).getD []) := by
  cases b with
  | text text => exact carried_chars text
  | image mediaType data => simp [blockPieces, AnthropicDriver.apiBlock, apiBlockPieces, Carried]
  | toolUse id name input => simp [blockPieces, AnthropicDriver.apiBlock, apiBlockPieces, Carried]
  | toolResult id content isError =>
    simp [blockPieces, AnthropicDriver.apiBlock, apiBlockPieces, Carried]
  | thinking thinking => exact .nil
  | unknown => exact .nil

theorem carried_geminiPart_iff (before : List ContentBlock) (b : ContentBlock) :
    Forall₂ Carried (blockPieces before b)
        (((GeminiDriver.convertPart b).map geminiPartPieces).getD []) ↔
      ∀ id ∈ b.resultId?, nameOf id before = some [] := by
  cases b with
  | text text =>
    simp only [GeminiDriver.convertPart, geminiPartPieces, Option.map_some, Option.getD_some]
    exact ⟨fun _ _ h => (by cases h), fun _ => carried_chars text⟩
  | image mediaType data =>
    simp [blockPieces, GeminiDriver.convertPart, geminiPartPieces, Carried, ContentBlock.resultId?]
  | toolUse id name input =>
    simp [blockPieces, GeminiDriver.convertPart, geminiPartPieces, Carried, ContentBlock.resultId?]
  | toolResult id content isError =>
    simp [blockPieces, GeminiDriver.convertPart, geminiPartPieces, Carried,
      ContentBlock.resultId?, Value.get, Value.asStr, eq_comm]
  | thinking thinking => simp [blockPieces, GeminiDriver.convertPart, ContentBlock.resultId?]
  | unknown => simp [blockPieces, GeminiDriver.convertPart, ContentBlock.resultId?]

theorem mute_iff (b : ContentBlock) : mute b = true ↔ textWire b = [] ∧ isImage b = false := by
  cases b <;> simp [mute, textWire, isImage]

theorem length_textCall_le (before blocks : List ContentBlock) :
    (blocks.flatMap textWire ++ blocks.flatMap callWire).length ≤
      (blocks.flatMap (blockPieces before)).length := by
  induction blocks with
  | nil => exact Nat.le_refl 0
  | cons b blocks ih =>
    have hb := length_textCall before b
    simp only [flatMap_cons, length_append] at ih ⊢
    omega

theorem callsLast_of_carried (hresults : ∀ b ∈ blocks, b.resultId? = none)
    (h : Forall₂ Carried (blocks.flatMap (blockPieces before))
      (blocks.flatMap textWire ++ blocks.flatMap callWire)) : CallsLast blocks := by
  induction blocks with
  | nil => exact ⟨nofun, .nil⟩
  | cons b blocks ih =>
    have hrest := fun x hx => hresults x (mem_cons_of_mem _ hx)
    have hquiet : b.toolUseId? = none → isImage b = false → CallsLast blocks →
        CallsLast (b :: blocks) := by
      intro huse himage hlast
      refine ⟨forall_mem_cons.mpr ⟨himage, hlast.1⟩,
        pairwise_cons.mpr ⟨fun x _ hsome => ?_, hlast.2⟩⟩
      rw [huse] at hsome
      cases hsome
    cases b with
    | text text =>
      rw [flatMap_cons, flatMap_cons, flatMap_cons, append_assoc] at h
      have htail := ((forall₂_append_iff (by simp [blockPieces, textWire])).mp h).2
      exact hquiet rfl rfl (ih hrest htail)
    | image mediaType data =>
      have hlen := h.length_eq
      have hle := length_textCall_le before blocks
      simp only [flatMap_cons, length_append, blockPieces, textWire, callWire, length_singleton,
        length_nil] at hlen hle
      omega
    | toolUse id name input =>
      change Forall₂ Carried (.call id name input :: blocks.flatMap (blockPieces before))
        (blocks.flatMap textWire ++ .call (some id) name input.toText ::
          blocks.flatMap callWire) at h
      -- a text in front of the call would stand in its place
      have htexts : blocks.flatMap textWire = [] := by
        cases hl : blocks.flatMap textWire with
        | nil => rfl
        | cons w ws =>
          rw [hl, cons_append, forall₂_cons] at h
          obtain ⟨x, -, hw⟩ := mem_flatMap.mp (hl ▸ mem_cons_self : w ∈ blocks.flatMap textWire)
          cases x <;> simp only [textWire, not_mem_nil, mem_map] at hw
          obtain ⟨c, -, rfl⟩ := hw
          exact h.1.elim
      rw [htexts, nil_append, forall₂_cons] at h
      have hlast := ih hrest (by rw [htexts]; exact h.2)
      refine ⟨forall_mem_cons.mpr ⟨rfl, hlast.1⟩, pairwise_cons.mpr ⟨fun x hx _ => ?_, hlast.2⟩⟩
      exact (mute_iff x).mpr ⟨flatMap_eq_nil_iff.mp htexts x hx, hlast.1 x hx⟩
    | toolResult id content isError => cases hresults _ mem_cons_self
    | thinking thinking => exact hquiet rfl rfl (ih hrest h)
    | unknown => exact hquiet rfl rfl (ih hrest h)

theorem carried_of_callsLast (hresults : ∀ b ∈ blocks, b.resultId? = none)
    (h : CallsLast blocks) : Forall₂ Carried (blocks.flatMap (blockPieces before))
      (blocks.flatMap textWire ++ blocks.flatMap callWire) := by
  induction blocks with
  | nil => exact .nil
  | cons b blocks ih =>
    obtain ⟨himages, hpairs⟩ := h
    obtain ⟨himage, himages⟩ := forall_mem_cons.mp himages
    obtain ⟨hmute, hpairs⟩ := pairwise_cons.mp hpairs
    have hrest := ih (fun x hx => hresults x (mem_cons_of_mem _ hx)) ⟨himages, hpairs⟩
    cases b with
    | text text =>
      rw [flatMap_cons, flatMap_cons, flatMap_cons, append_assoc]
      exact rel_append (carried_chars text) hrest
    | image mediaType data => cases himage
    | toolUse id name input =>
      have htexts : blocks.flatMap textWire = [] :=
        flatMap_eq_nil_iff.mpr fun x hx => ((mute_iff x).mp (hmute x hx rfl)).1
      rw [htexts, nil_append] at hrest
      rw [flatMap_cons, flatMap_cons, flatMap_cons, htexts]
      exact .cons ⟨fun i hi => (Option.mem_some.mp hi).symm, rfl, rfl⟩ hrest
    | toolResult id content isError => cases hresults _ mem_cons_self
    | thinking thinking => exact hrest
    | unknown => exact hrest

end Blocks

section Messages

variable {before : List ContentBlock} {m : Message}

theorem flatMap_withBefore {β : Type*} (g : Message → List β) (before : List ContentBlock)
    (ms : List Message) : ms.flatMap g = (withBefore before ms).flatMap fun p => g p.2 := by
  induction ms generalizing before with
  | nil => rfl
  | cons m ms ih => rw [flatMap_cons, ih m.content.blockList]; rfl

theorem mem_withBefore {ms : List Message} {p : List ContentBlock × Message}
    (h : p ∈ withBefore before ms) : p.2 ∈ ms := by
  induction ms generalizing before with
  | nil => cases h
  | cons m ms ih =>
    obtain rfl | hrest := mem_cons.mp h
    · exact mem_cons_self
    · exact mem_cons_of_mem _ (ih hrest)

/-- What is sent of each message decides what is kept of the conversation. -/
theorem kept_iff_messages {ms : List Message} {send : Message → List WirePiece}
    (hlen : ∀ m ∈ ms, ∀ before, (send m).length ≤ (messagePieces before m).length) :
    Kept ms (ms.flatMap send) ↔
      ∀ p ∈ withBefore [] ms, Forall₂ Carried (messagePieces p.1 p.2) (send p.2) := by
  unfold Kept pieces
  rw [flatMap_withBefore send []]
  exact sublistForall₂_flatMap_iff fun p hp => hlen p.2 (mem_withBefore hp) p.1

/-- A message whose tool uses and results stand where they belong. -/
def Seated (m : Message) : Prop :=
  (m.role ≠ .assistant → m.toolUses = []) ∧ (m.role ≠ .user → m.toolResults = [])

def oaiSent (user : List ContentBlock → List OaiMessage) (system : Option Str) (m : Message) :
    List WirePiece :=
  (OpenAiDriver.convertMessage user system m).flatMap oaiPieces

theorem sent_openAi (user : List ContentBlock → List OaiMessage) (request : CompletionRequest) :
    (OpenAiDriver.convertMessages user request).flatMap oaiPieces =
      request.messages.flatMap (oaiSent user request.system) := by
  unfold OpenAiDriver.convertMessages
  rw [flatMap_append, flatMap_assoc]
  cases request.system <;> rfl

theorem messagePieces_blocks {role : Role} (hrole : role ≠ .system) (before : List ContentBlock)
    (blocks : List ContentBlock) :
    messagePieces before ⟨role, .blocks blocks⟩ = blocks.flatMap (blockPieces before) :=
  if_neg hrole

theorem messagePieces_text {role : Role} (hrole : role ≠ .system) (before : List ContentBlock)
    (text : Str) : messagePieces before ⟨role, .text text⟩ = text.map .char := by
  rw [messagePieces, if_neg hrole]
  exact append_nil _

theorem oaiSent_text {role : Role} (hrole : role ≠ .system)
    (user : List ContentBlock → List OaiMessage) (system : Option Str) (text : Str) :
    oaiSent user system ⟨role, .text text⟩ = text.map .char := by
  cases role with
  | system => exact absurd rfl hrole
  | user =>
    show [OaiMessage.plain "user".toList text].flatMap oaiPieces = _
    rw [flatMap_singleton, oaiPieces_plain _ _ (by decide)]
  | assistant =>
    show [OaiMessage.plain "assistant".toList text].flatMap oaiPieces = _
    rw [flatMap_singleton, oaiPieces_plain _ _ (by decide)]

theorem oaiSent_system (user : List ContentBlock → List OaiMessage) (system : Option Str)
    (content : MessageContent) : oaiSent user system ⟨.system, content⟩ = [] := by
  cases content with
  | text text => cases system <;> rfl
  | blocks blocks => rfl

theorem oaiSent_assistant (user : List ContentBlock → List OaiMessage) (system : Option Str)
    (blocks : List ContentBlock) : oaiSent user system ⟨.assistant, .blocks blocks⟩ =
      blocks.flatMap textWire ++ blocks.flatMap callWire := by
  show [OpenAiDriver.assistantBlocks blocks].flatMap oaiPieces = _
  rw [flatMap_singleton, oaiPieces_assistantBlocks]

theorem carried_assistant_iff {blocks : List ContentBlock}
    (hresults : blocks.filterMap ContentBlock.resultId? = []) :
    Forall₂ Carried (blocks.flatMap (blockPieces before))
      (blocks.flatMap textWire ++ blocks.flatMap callWire) ↔ CallsLast blocks :=
  ⟨callsLast_of_carried (filterMap_eq_nil_iff.mp hresults),
    carried_of_callsLast (filterMap_eq_nil_iff.mp hresults)⟩

theorem carried_results_iff {blocks : List ContentBlock}
    (huses : blocks.filterMap ContentBlock.toolUseId? = []) :
    Forall₂ Carried (blocks.flatMap (blockPieces before)) (blocks.flatMap resultWire) ↔
      ∀ b ∈ blocks, mute b = true := by
  rw [forall₂_flatMap_iff fun b _ => length_resultWire_le before b]
  exact forall₂_congr fun b hb => carried_resultWire_iff (filterMap_eq_nil_iff.mp huses b hb)

theorem carried_userBlocks_iff {blocks : List ContentBlock}
    (huses : blocks.filterMap ContentBlock.toolUseId? = []) :
    Forall₂ Carried (blocks.flatMap (blockPieces before))
        ((OpenAiDriver.userBlocks blocks).flatMap oaiPieces) ↔
      (blocks.filterMap ContentBlock.resultId? ≠ [] → ∀ b ∈ blocks, mute b = true) := by
  rw [oaiPieces_userBlocks]
  by_cases hresults : blocks.filterMap ContentBlock.resultId? = []
  · rw [if_pos hresults]
    refine iff_of_true ?_ (fun h => absurd hresults h)
    rw [forall₂_flatMap_iff fun b _ => length_partWire_le before b]
    exact fun b hb => carried_partWire (filterMap_eq_nil_iff.mp huses b hb)
      (filterMap_eq_nil_iff.mp hresults b hb)
  · rw [if_neg hresults, carried_results_iff huses]
    exact ⟨fun h _ => h, fun h => h hresults⟩

theorem callsLast_nil : CallsLast [] := ⟨nofun, .nil⟩

/-- A message sent to OpenAI: a text as it is, the blocks of a user message as they are sent, and
those of an assistant message with the texts in front. -/
theorem carried_openAi_iff {user : List ContentBlock → List OaiMessage} {system : Option Str}
    {P : List ContentBlock → Prop} (hm : Seated m)
    (huser : ∀ blocks, blocks.filterMap ContentBlock.toolUseId? = [] →
      (Forall₂ Carried (blocks.flatMap (blockPieces before)) ((user blocks).flatMap oaiPieces) ↔
        P blocks)) (hnil : P []) :
    Forall₂ Carried (messagePieces before m) (oaiSent user system m) ↔
      (m.role = .user → P m.content.blockList) ∧
        (m.role = .assistant → CallsLast m.content.blockList) := by
  obtain ⟨role, content⟩ := m
  obtain ⟨huses, hresults⟩ := hm
  cases role with
  | system =>
    rw [oaiSent_system]
    exact iff_of_true .nil ⟨nofun, nofun⟩
  | user =>
    cases content with
    | text text =>
      rw [messagePieces_text (by decide), oaiSent_text (by decide)]
      exact iff_of_true (carried_chars text) ⟨fun _ => hnil, nofun⟩
    | blocks blocks =>
      rw [messagePieces_blocks (by decide)]
      have hblocks := huser blocks (huses nofun)
      exact ⟨fun h => ⟨fun _ => hblocks.mp h, nofun⟩, fun h => hblocks.mpr (h.1 rfl)⟩
  | assistant =>
    cases content with
    | text text =>
      rw [messagePieces_text (by decide), oaiSent_text (by decide)]
      exact iff_of_true (carried_chars text) ⟨nofun, fun _ => callsLast_nil⟩
    | blocks blocks =>
      have hblocks : blocks.filterMap ContentBlock.resultId? = [] := hresults nofun
      rw [messagePieces_blocks (by decide), oaiSent_assistant, carried_assistant_iff hblocks]
      exact ⟨fun h => ⟨nofun, fun _ => h⟩, fun h => h.2 rfl⟩

theorem length_oaiSent_le {user : List ContentBlock → List OaiMessage}
    (huser : ∀ before blocks, ((user blocks).flatMap oaiPieces).length ≤
      (blocks.flatMap (blockPieces before)).length)
    (system : Option Str) (m : Message) (before : List ContentBlock) :
    (oaiSent user system m).length ≤ (messagePieces before m).length := by
  obtain ⟨role, content⟩ := m
  cases role with
  | system =>
    rw [oaiSent_system]
    exact Nat.zero_le _
  | user =>
    cases content with
    | text text => rw [messagePieces_text (by decide), oaiSent_text (by decide)]; simp
    | blocks blocks =>
      rw [messagePieces_blocks (by decide)]
      exact huser before blocks
  | assistant =>
    cases content with
    | text text => rw [messagePieces_text (by decide), oaiSent_text (by decide)]; simp
    | blocks blocks =>
      rw [messagePieces_blocks (by decide), oaiSent_assistant]
      exact length_textCall_le before blocks

theorem length_userBlocks_le (before blocks : List ContentBlock) :
    ((OpenAiDriver.userBlocks blocks).flatMap oaiPieces).length ≤
      (blocks.flatMap (blockPieces before)).length := by
  rw [oaiPieces_userBlocks]
  split
  · exact length_flatMap_le fun b _ => length_partWire_le before b
  · exact length_flatMap_le fun b _ => length_resultWire_le before b

theorem length_userBlocksStream_le (before blocks : List ContentBlock) :
    ((OpenAiDriver.userBlocksStream blocks).flatMap oaiPieces).length ≤
      (blocks.flatMap (blockPieces before)).length := by
  unfold OpenAiDriver.userBlocksStream
  rw [flatMap_toolMessage]
  exact length_flatMap_le fun b _ => length_resultWire_le before b

def apiSent (m : Message) : List WirePiece :=
  if m.role ≠ .system then apiPieces (AnthropicDriver.convertMessage m) else []

theorem sent_anthropic (request : CompletionRequest) :
    (AnthropicDriver.apiMessages request).flatMap apiPieces = request.messages.flatMap apiSent := by
  unfold AnthropicDriver.apiMessages
  induction request.messages with
  | nil => rfl
  | cons m ms ih =>
    rw [flatMap_cons, ← ih]
    unfold apiSent
    by_cases hm : m.role = .system
    · simp [hm]
    · simp [hm]

theorem carried_anthropic (before : List ContentBlock) (m : Message) :
    Forall₂ Carried (messagePieces before m) (apiSent m) := by
  obtain ⟨role, content⟩ := m
  unfold messagePieces apiSent
  by_cases hrole : role = .system
  · rw [if_pos hrole, if_neg (not_not.mpr hrole)]
    exact .nil
  · rw [if_neg hrole, if_pos hrole]
    cases content with
    | text text =>
      show Forall₂ Carried (text.map .char ++ []) (text.map .char)
      rw [append_nil]
      exact carried_chars text
    | blocks blocks =>
      show Forall₂ Carried (blocks.flatMap (blockPieces before))
        ((blocks.filterMap AnthropicDriver.apiBlock).flatMap apiBlockPieces)
      rw [flatMap_filterMap]
      refine rel_flatMap (R := Eq) (forall₂_same.mpr fun _ _ => rfl) ?_
      rintro b _ rfl
      exact carried_apiBlock before b

def geminiSent (m : Message) : List WirePiece :=
  ((GeminiDriver.convertMessage m).map fun c => c.parts.flatMap geminiPartPieces).getD []

theorem sent_gemini (ms : List Message) :
    ((GeminiDriver.convertMessages ms).flatMap fun c => c.parts.flatMap geminiPartPieces) =
      ms.flatMap geminiSent :=
  flatMap_filterMap _ _ _

theorem geminiSent_eq (m : Message) : geminiSent m = if m.role = .system then [] else
    m.content.toBlocks.flatMap
      fun b => ((GeminiDriver.convertPart b).map geminiPartPieces).getD [] := by
  have hcontent : ∀ (role : Str) (parts : List GeminiPart),
      ((if parts = [] then none else some (⟨some role, parts⟩ : GeminiContent)).map
        fun c => c.parts.flatMap geminiPartPieces).getD [] = parts.flatMap geminiPartPieces := by
    intro role parts
    by_cases hparts : parts = []
    · rw [if_pos hparts, hparts]
      rfl
    · rw [if_neg hparts]
      rfl
  obtain ⟨role, content⟩ := m
  rw [← flatMap_filterMap]
  cases role with
  | system => rfl
  | user =>
    cases content with
    | text text => exact hcontent "user".toList [.text text]
    | blocks blocks => exact hcontent "user".toList (blocks.filterMap GeminiDriver.convertPart)
  | assistant =>
    cases content with
    | text text => exact hcontent "model".toList [.text text]
    | blocks blocks => exact hcontent "model".toList (blocks.filterMap GeminiDriver.convertPart)

theorem length_geminiPart (before : List ContentBlock) (b : ContentBlock) :
    (((GeminiDriver.convertPart b).map geminiPartPieces).getD []).length ≤
      (blockPieces before b).length := by
  cases b <;> simp [GeminiDriver.convertPart, geminiPartPieces, blockPieces, -String.reduceToList]

theorem length_geminiSent_le (m : Message) (before : List ContentBlock) :
    (geminiSent m).length ≤ (messagePieces before m).length := by
  rw [geminiSent_eq]
  unfold messagePieces
  split
  · exact Nat.le_refl _
  · exact length_flatMap_le fun b _ => length_geminiPart before b

theorem forall_toolResults_iff {m : Message} {P : Str → Prop} :
    (∀ b ∈ m.content.toBlocks, ∀ id ∈ b.resultId?, P id) ↔ ∀ id ∈ m.toolResults, P id := by
  obtain ⟨role, content⟩ := m
  cases content with
  | text text =>
    refine iff_of_true (fun b hb id hid => ?_) nofun
    obtain rfl : b = .text text := mem_singleton.mp hb
    cases hid
  | blocks blocks =>
    constructor
    · intro h id hid
      obtain ⟨b, hb, hid⟩ := mem_filterMap.mp hid
      exact h b hb id hid
    · intro h b hb id hid
      exact h id (mem_filterMap.mpr ⟨b, hb, hid⟩)

theorem carried_gemini_iff (before : List ContentBlock) (m : Message) :
    Forall₂ Carried (messagePieces before m) (geminiSent m) ↔
      (m.role ≠ .system → ∀ id ∈ m.toolResults, nameOf id before = some []) := by
  rw [geminiSent_eq]
  unfold messagePieces
  by_cases hrole : m.role = .system
  · rw [if_pos hrole, if_pos hrole]
    exact iff_of_true .nil fun h => absurd hrole h
  · rw [if_neg hrole, if_neg hrole, forall₂_flatMap_iff fun b _ => length_geminiPart before b]
    simp only [carried_geminiPart_iff, ne_eq, hrole, not_false_eq_true, true_imp_iff]
    exact forall_toolResults_iff

/-- A paired conversation is kept by a driver exactly when its messages fit the driver. -/
theorem kept_iff_fits (driver : Driver) (request : CompletionRequest)
    (h : Paired request.messages) : Kept request.messages (driver.sent request) ↔
      ∀ p ∈ withBefore [] request.messages, driver.fits p := by
  have hseated : ∀ m ∈ request.messages, Seated m := fun m hm => ⟨h.uses m hm, h.results m hm⟩
  cases driver with
  | openAiComplete =>
    unfold Driver.sent OpenAiDriver.completeMessages
    rw [sent_openAi, kept_iff_messages fun m _ before =>
      length_oaiSent_le length_userBlocks_le request.system m before]
    refine forall₂_congr fun p hp => ?_
    have hm := hseated p.2 (mem_withBefore hp)
    exact carried_openAi_iff hm (fun _ => carried_userBlocks_iff) nofun
  | openAiStream =>
    unfold Driver.sent OpenAiDriver.streamMessages
    rw [sent_openAi, kept_iff_messages fun m _ before =>
      length_oaiSent_le length_userBlocksStream_le request.system m before]
    refine forall₂_congr fun p hp => ?_
    refine carried_openAi_iff (P := fun blocks => ∀ b ∈ blocks, mute b = true)
      (hseated p.2 (mem_withBefore hp)) (fun blocks huses => ?_) nofun
    unfold OpenAiDriver.userBlocksStream
    rw [flatMap_toolMessage]
    exact carried_results_iff huses
  | anthropic =>
    unfold Driver.sent
    rw [sent_anthropic,
      kept_iff_messages fun m _ before => (carried_anthropic before m).length_eq.ge]
    exact forall₂_congr fun p _ => iff_of_true (carried_anthropic p.1 p.2) trivial
  | gemini =>
    unfold Driver.sent
    rw [sent_gemini, kept_iff_messages fun m _ before => length_geminiSent_le m before]
    exact forall₂_congr fun p _ => carried_gemini_iff p.1 p.2

end Messages

section Runs

/-- A question, a call, its result with more blocks behind it, and an answer. -/
private def toolTurn (more : List ContentBlock) : CompletionRequest where
  model := []
  messages := [.user "list".toList,
    ⟨.assistant, .blocks [.text "ok".toList, .toolUse "c1".toList "ls".toList (.object [])]⟩,
    ⟨.user, .blocks (.toolResult "c1".toList "a b".toList false :: more)⟩,
    .assistant "a, b".toList]
  tools := []
  maxTokens := 0
  temperature := .finite 0
  system := some "be brief".toList
  thinking := none

theorem kept_iff_fits_toolTurn :
    Kept (toolTurn []).messages (Driver.openAiComplete.sent (toolTurn [])) := by
  refine (kept_iff_fits .openAiComplete (toolTurn []) ⟨?_, ?_, ?_, ?_, ?_⟩).mpr ?_
  · decide
  · decide
  · decide
  · decide
  · decide
  · show ∀ p ∈ withBefore [] (toolTurn []).messages,
      (p.2.role = .user → p.2.toolResults ≠ [] → ∀ b ∈ p.2.content.blockList, mute b = true) ∧
        (p.2.role = .assistant → CallsLast p.2.content.blockList)
    decide

theorem length_le_of_kept {ms : List Message} {wire : List WirePiece} (h : Kept ms wire) :
    (pieces ms).length ≤ wire.length := by
  obtain ⟨ys, hys, hsub⟩ := sublistForall₂_iff.mp h
  rw [hys.length_eq]
  exact hsub.length_le

/-- A text behind a tool result is lost on the way to OpenAI, and no result finds its call in
what Gemini gets. -/
theorem text_behind_result_lost :
    let request := toolTurn [.text "go on".toList]
    Paired request.messages ∧ ¬ Kept request.messages (Driver.openAiComplete.sent request) ∧
      ¬ Kept request.messages (Driver.openAiStream.sent request) ∧
      ¬ Kept request.messages (Driver.gemini.sent request) := by
  intro request
  refine ⟨⟨by decide, by decide, by decide, by decide, by decide⟩, fun h => ?_, fun h => ?_,
    fun h => ?_⟩
  · exact absurd (length_le_of_kept h) (by decide)
  · exact absurd (length_le_of_kept h) (by decide)
  · unfold Driver.sent at h
    rw [sent_gemini, kept_iff_messages fun m _ before => length_geminiSent_le m before] at h
    have hresult := h (withBefore [] request.messages)[2] (getElem_mem _)
    rw [carried_gemini_iff] at hresult
    exact absurd (hresult (by decide)) (by decide)

end Runs

end Clawreform.Runtime.MessageConversion
