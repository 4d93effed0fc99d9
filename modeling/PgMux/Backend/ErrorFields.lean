import PgMux.Codec
import PgMux.Shared.Delimited

set_option autoImplicit false

namespace PgMux

/-- The fields of an error, each with its type, as they stand in front of the terminator. The last one may
run to the end of the payload. -/
inductive ErrorFields : Bytes → List (UInt8 × Bytes) → Prop
  | ended : ErrorFields [] []
  | terminator (rest : Bytes) : ErrorFields (0 :: rest) []
  | cut (fieldType : UInt8) (value : Bytes) (typed : fieldType ≠ 0) (clean : 0 ∉ value) :
      ErrorFields (fieldType :: value) [(fieldType, value)]
  | field (fieldType : UInt8) (value rest : Bytes) (fields : List (UInt8 × Bytes)) (typed : fieldType ≠ 0)
      (clean : 0 ∉ value) (more : ErrorFields rest fields) :
      ErrorFields (fieldType :: (value ++ 0 :: rest)) ((fieldType, value) :: fields)

def messageText (field : UInt8 × Bytes) : Option String :=
  if field.1 = 'M'.toUInt8 then fromUtf8 field.2 else none

-- The text of the last readable message field, where there is one.
def lastMessage (fields : List (UInt8 × Bytes)) : Option String := (fields.filterMap messageText).getLast?

theorem lastMessage_cons (field : UInt8 × Bytes) (fields : List (UInt8 × Bytes)) (msg : String) :
    (lastMessage (field :: fields)).getD msg = (lastMessage fields).getD ((messageText field).getD msg) := by
  rw [lastMessage, lastMessage, List.filterMap_cons]
  cases messageText field with
  | none => rfl
  | some text => simp [List.getLast?_cons]

theorem messageText_getD (fieldType : UInt8) (value : Bytes) (msg : String) :
    (if fieldType = 'M'.toUInt8 then (fromUtf8 value).getD msg else msg) =
      (messageText (fieldType, value)).getD msg := by
  rw [messageText]
  split
  · rfl
  · rfl

theorem errorFields_cut {fieldType : UInt8} {value : Bytes} (typed : fieldType ≠ 0) (clean : 0 ∉ value)
    (msg : String) : errorFields (fieldType :: value) msg = (messageText (fieldType, value)).getD msg := by
  rw [errorFields, if_neg typed]
  simp only [Delimited.takeWhile_clean clean, Delimited.dropWhile_clean clean, List.drop_nil]
  rw [errorFields, messageText_getD]

theorem errorFields_field {fieldType : UInt8} {value : Bytes} (typed : fieldType ≠ 0) (clean : 0 ∉ value)
    (rest : Bytes) (msg : String) :
    errorFields (fieldType :: (value ++ 0 :: rest)) msg =
      errorFields rest ((messageText (fieldType, value)).getD msg) := by
  rw [errorFields, if_neg typed]
  simp only [Delimited.takeWhile_field clean, Delimited.dropWhile_field clean, List.drop_one, List.tail_cons]
  rw [messageText_getD]

theorem ErrorFields.errorFields_eq {payload : Bytes} {fields : List (UInt8 × Bytes)}
    (split : ErrorFields payload fields) (msg : String) :
    errorFields payload msg = (lastMessage fields).getD msg := by
  induction split generalizing msg with
  | ended => rw [errorFields, lastMessage, List.filterMap_nil, List.getLast?_nil, Option.getD_none]
  | terminator rest =>
    rw [errorFields, if_pos rfl, lastMessage, List.filterMap_nil, List.getLast?_nil, Option.getD_none]
  | cut fieldType value typed clean =>
    rw [errorFields_cut typed clean, lastMessage_cons]
    rfl
  | field fieldType value rest fields typed clean more ih =>
    rw [errorFields_field typed clean, ih, lastMessage_cons]

theorem exists_errorFields (payload : Bytes) : ∃ fields, ErrorFields payload fields := by
  induction size : payload.length using Nat.strong_induction_on generalizing payload with
  | h n ih =>
    cases payload with
    | nil => exact ⟨[], .ended⟩
    | cons fieldType text =>
      by_cases typed : fieldType = 0
      · subst typed
        exact ⟨[], .terminator text⟩
      · have clean := Delimited.notMem_takeWhile 0 text
        obtain ⟨-, whole⟩ | ⟨rest, -, whole⟩ := Delimited.dropWhile_cases 0 text
        · rw [whole]
          exact ⟨_, .cut fieldType _ typed clean⟩
        · have shorter : rest.length < n := by
            rw [← size, whole]
            simp
            omega
          obtain ⟨fields, more⟩ := ih _ shorter rest rfl
          rw [whole]
          exact ⟨_, .field fieldType _ rest fields typed clean more⟩

def orUnknown (text : Option String) : String :=
  match text with
  | some text => if text = "" then "unknown error" else text
  | none => "unknown error"

theorem ErrorFields.parse {payload : Bytes} {fields : List (UInt8 × Bytes)} (split : ErrorFields payload fields) :
    parseErrorFields payload = orUnknown (lastMessage fields) := by
  rw [parseErrorFields, split.errorFields_eq]
  cases lastMessage fields with
  | none => rfl
  | some text => rfl

def errorPayload (severity code message : String) : Bytes :=
  'S'.toUInt8 :: (asBytes severity ++ 0 :: 'V'.toUInt8 :: (asBytes severity ++ 0 :: 'C'.toUInt8 ::
    (asBytes code ++ 0 :: 'M'.toUInt8 :: (asBytes message ++ 0 :: [0]))))

theorem buildErrorResponse_eq (severity code message : String) :
    buildErrorResponse severity code message =
      PgMessage.encode ⟨'E'.toUInt8, errorPayload severity code message⟩ := by
  have same : ['S'.toUInt8] ++ asBytes severity ++ [0] ++ ['V'.toUInt8] ++ asBytes severity ++ [0] ++
      ['C'.toUInt8] ++ asBytes code ++ [0] ++ ['M'.toUInt8] ++ asBytes message ++ [0] ++ [0] =
      errorPayload severity code message := by
    simp [errorPayload]
  simp only [buildErrorResponse, buildErrorLike, same]
  rfl

theorem errorPayload_fields {severity code message : String} (severityClean : 0 ∉ asBytes severity)
    (codeClean : 0 ∉ asBytes code) (messageClean : 0 ∉ asBytes message) :
    ErrorFields (errorPayload severity code message)
      [('S'.toUInt8, asBytes severity), ('V'.toUInt8, asBytes severity), ('C'.toUInt8, asBytes code),
        ('M'.toUInt8, asBytes message)] := by
  refine .field _ _ _ _ (by decide) severityClean (.field _ _ _ _ (by decide) severityClean ?_)
  exact .field _ _ _ _ (by decide) codeClean (.field _ _ _ _ (by decide) messageClean (.terminator []))

theorem lastMessage_errorPayload (severity code : Bytes) (message : String) :
    lastMessage [('S'.toUInt8, severity), ('V'.toUInt8, severity), ('C'.toUInt8, code),
      ('M'.toUInt8, asBytes message)] = some message := by
  simp [lastMessage, messageText, fromUtf8_asBytes]

def Fits (severity code message : String) : Prop :=
  (buildErrorResponse severity code message).length ≤ 1 + maxMessageSize

instance (severity code message : String) : Decidable (Fits severity code message) :=
  inferInstanceAs (Decidable (_ ≤ _))

theorem read_buildErrorResponse {severity code message : String} (fits : Fits severity code message) (rest : Bytes) :
    tryReadMessage (buildErrorResponse severity code message ++ rest) false =
      .ok (some (⟨'E'.toUInt8, errorPayload severity code message⟩, rest)) := by
  have typed : 'E'.toUInt8 ≠ 0 := by decide
  rw [Fits, buildErrorResponse_eq, PgMessage.encode, if_pos typed] at fits
  simp only [List.length_append, List.length_singleton, putI32_length] at fits
  rw [buildErrorResponse_eq]
  refine tryReadMessage_plain typed ?_ rest
  dsimp only
  omega

theorem error_fields_survive :
    (∀ severity code message rest, 0 ∉ asBytes severity → 0 ∉ asBytes code → 0 ∉ asBytes message →
      Fits severity code message →
      ∃ payload, tryReadMessage (buildErrorResponse severity code message ++ rest) false =
          .ok (some (⟨'E'.toUInt8, payload⟩, rest)) ∧
        parseErrorFields payload = if message = "" then "unknown error" else message) ∧
      ∀ payload, (∃ fields, ErrorFields payload fields) ∧
        ∀ fields, ErrorFields payload fields → parseErrorFields payload = orUnknown (lastMessage fields) := by
  constructor
  · intro severity code message rest severityClean codeClean messageClean fits
    refine ⟨errorPayload severity code message, read_buildErrorResponse fits rest, ?_⟩
    rw [(errorPayload_fields severityClean codeClean messageClean).parse, lastMessage_errorPayload]
    rfl
  · intro payload
    exact ⟨exists_errorFields payload, fun fields split => split.parse⟩

-- An error whose text looks like a field of its own, with one more byte behind it.
theorem error_fields_survive_tagged :
    ∃ payload, tryReadMessage (buildErrorResponse "FATAL" "28000" "MS" ++ [77]) false =
        .ok (some (⟨'E'.toUInt8, payload⟩, [77])) ∧
      parseErrorFields payload = "MS" :=
  error_fields_survive.1 "FATAL" "28000" "MS" [77] (by decide) (by decide) (by decide) (by decide)

end PgMux
