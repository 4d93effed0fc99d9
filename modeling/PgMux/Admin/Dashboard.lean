import PgMux.Shared.Markup
import PgMux.Client.Reports
import PgMux.Pool.FailedAcquire

set_option autoImplicit false

namespace PgMux

structure PoolStats where
  key : PoolKey
  idleConnections : Nat
  activeConnections : Nat
  totalAcquired : Nat
  totalErrors : Nat
deriving DecidableEq, Repr

def PoolManager.getStats (m : PoolManager) : List PoolStats :=
  m.pools.entries.map fun entry =>
    { key := entry.1
      idleConnections := entry.2.idle.length
      activeConnections := entry.2.activeCount.value
      totalAcquired := entry.2.totalAcquired
      totalErrors := entry.2.totalErrors }

-- What `serde_json` escapes in a string.
def Special (c : Char) : Prop := c = '"' ∨ c = '\\' ∨ c.toNat < 0x20

instance (c : Char) : Decidable (Special c) := inferInstanceAs (Decidable (_ ∨ _))

/-- How `serde_json` writes a character of a string, and how a quotient of floating-point numbers is written
with two decimals. -/
structure Formats where
  escape : Char → List Char
  twoDecimals : Nat → Nat → String
  escapes : Markup.Escapes escape Special

section Page

variable (formats : Formats)

def formatBytes (bytes : Nat) : String :=
  let kb := 1024
  let mb := 1024 * kb
  let gb := 1024 * mb
  let tb := 1024 * gb
  if tb ≤ bytes then formats.twoDecimals bytes tb ++ " TB"
  else if gb ≤ bytes then formats.twoDecimals bytes gb ++ " GB"
  else if mb ≤ bytes then formats.twoDecimals bytes mb ++ " MB"
  else if kb ≤ bytes then formats.twoDecimals bytes kb ++ " KB"
  else toString bytes ++ " B"

def jsonString (text : String) : String := "\"" ++ String.ofList (text.toList.flatMap formats.escape) ++ "\""

def jsonOption : Option Nat → String
  | some n => toString n
  | none => "null"

def jsonArray (items : List String) : String := "[" ++ ",".intercalate items ++ "]"

def jsonObject (fields : List (String × String)) : String :=
  "\x7b" ++ ",".intercalate (fields.map fun field => "\"" ++ field.1 ++ "\":" ++ field.2) ++ "\x7d"

def PoolStats.toJson (p : PoolStats) : String :=
  jsonObject [("key", jsonString formats p.key.display), ("idle_connections", toString p.idleConnections),
    ("active_connections", toString p.activeConnections), ("total_acquired", toString p.totalAcquired),
    ("total_errors", toString p.totalErrors)]

def DbSizeInfo.toJson (d : DbSizeInfo) : String :=
  jsonObject [("database", jsonString formats d.database), ("size_bytes", jsonOption d.sizeBytes),
    ("limit_bytes", jsonOption d.limitBytes), ("over_limit", if d.overLimit then "true" else "false")]

def tableRow (cells : List String) : String :=
  "<tr>" ++ String.join (cells.map fun cell => "<td>" ++ cell ++ "</td>") ++ "</tr>"

def poolRow (p : PoolStats) : String :=
  tableRow [p.key.display, toString p.activeConnections, toString p.idleConnections, toString p.totalAcquired,
    toString p.totalErrors,
    if 0 < p.totalErrors then "<span class=\"badge badge-warn\">errors</span>"
    else "<span class=\"badge badge-ok\">healthy</span>"]

def dbRow (d : DbSizeInfo) : String :=
  tableRow [d.database, (d.sizeBytes.map (formatBytes formats)).getD "-",
    (d.limitBytes.map (formatBytes formats)).getD "unlimited", "-",
    if d.overLimit then "<span class=\"badge badge-danger\">READ-ONLY</span>"
    else "<span class=\"badge badge-ok\">OK</span>"]

structure Dashboard where
  totalConnections : Nat
  poolCount : Nat
  dbCount : Nat
  poolsJson : String
  dbsJson : String
  poolsRows : String
  dbsRows : String
deriving DecidableEq, Repr

def generateDashboardHtml (pools : List PoolStats) (databases : List DbSizeInfo) (totalConnections : Nat) :
    Dashboard where
  totalConnections := totalConnections
  poolCount := pools.length
  dbCount := databases.length
  poolsJson := jsonArray (pools.map (PoolStats.toJson formats))
  dbsJson := jsonArray (databases.map (DbSizeInfo.toJson formats))
  poolsRows := "\n".intercalate (pools.map poolRow)
  dbsRows := "\n".intercalate (databases.map (dbRow formats))

def dashboardHandler (cfg : MonitorConfig) (m : PoolManager) (monitor : DbSizeMonitor) : Dashboard :=
  generateDashboardHtml formats m.getStats (monitor.getAllDbInfo cfg) m.totalServerConnections.value

end Page

open Markup

def PoolStats.rename (p : PoolStats) (database user : String) : PoolStats :=
  { p with key := { p.key with database := database, user := user } }

def DbSizeInfo.rename (d : DbSizeInfo) (database : String) : DbSizeInfo := { d with database := database }

def PoolRenamed (p renamed : PoolStats) : Prop := ∃ database user, renamed = p.rename database user

def DbRenamed (d renamed : DbSizeInfo) : Prop := ∃ database, renamed = d.rename database

theorem opens_display (key : PoolKey) :
    opens key.display.toList = opens key.host.toList ++ (opens (":" ++ toString key.port.toNat ++ "/").toList ++
      (opens key.database.toList ++ opens key.user.toList)) := by
  have parts : key.display.toList = key.host.toList ++ ((":" ++ toString key.port.toNat ++ "/").toList ++
      (key.database.toList ++ '@' :: key.user.toList)) := by
    simp [PoolKey.display]
  have port : (":" ++ toString key.port.toNat ++ "/").toList.getLast? ≠ some '<' := by
    rw [String.toList_append, List.getLast?_append]
    simp
  rw [parts, opens_append_of_head (by simp [opener]), opens_append_of_last port,
    opens_append_of_head (by simp [opener]), opens]
  simp

theorem tableRow_toList (name : String) (cells : List String) :
    (tableRow (name :: cells)).toList =
      "<tr><td>".toList ++ (name.toList ++ ("</td>" ++ String.join (cells.map fun cell => "<td>" ++ cell ++ "</td>") ++
        "</tr>").toList) := by
  simp [tableRow]

theorem opens_tableRow (name other : String) (cells : List String) :
    opens (tableRow (name :: cells)).toList = opens (tableRow (other :: cells)).toList ↔
      opens name.toList = opens other.toList := by
  have split (name : String) : opens (tableRow (name :: cells)).toList = opens "<tr><td>".toList ++
      (opens name.toList ++
        opens ("</td>" ++ String.join (cells.map fun cell => "<td>" ++ cell ++ "</td>") ++ "</tr>").toList) := by
    rw [tableRow_toList, opens_append_of_last (by decide), opens_append_of_head]
    simp [opener]
  rw [split, split, List.append_right_inj, List.append_left_inj]

theorem opens_poolRow_rename (p : PoolStats) (database user : String) :
    opens (poolRow (p.rename database user)).toList = opens (poolRow p).toList ↔
      opens database.toList ++ opens user.toList = opens p.key.database.toList ++ opens p.key.user.toList := by
  refine (opens_tableRow (p.rename database user).key.display p.key.display _).trans ?_
  rw [opens_display, opens_display]
  exact (List.append_right_inj _).trans (List.append_right_inj _)

theorem opens_dbRow_rename (formats : Formats) (d : DbSizeInfo) (database : String) :
    opens (dbRow formats (d.rename database)).toList = opens (dbRow formats d).toList ↔
      opens database.toList = opens d.database.toList :=
  opens_tableRow database d.database _

theorem map_eq_iff_forall₂ {A B : Type} {related same : A → A → Prop} {f : A → B}
    (each : ∀ a b, related a b → (f b = f a ↔ same a b)) {as bs : List A} (all : List.Forall₂ related as bs) :
    bs.map f = as.map f ↔ List.Forall₂ same as bs := by
  induction all with
  | nil => simp
  | cons head tail ih =>
    rw [List.map_cons, List.map_cons, List.cons.injEq, List.forall₂_cons, ih, each _ _ head]

theorem mem_getStats {m : PoolManager} {key : PoolKey} (present : m.has key) : ∃ p ∈ m.getStats, p.key = key := by
  have listed : key ∈ m.pools.entries.map Sigma.fst := AList.lookup_isSome.mp present
  obtain ⟨entry, member, rfl⟩ := List.mem_map.mp listed
  exact ⟨_, List.mem_map_of_mem member, rfl⟩

theorem names_on_page (formats : Formats) (cfg : PoolConfig) (monitoring : MonitorConfig) (monitor : DbSizeMonitor)
    {s : System} (reached : System.Reachable cfg s) {i : Nat} {call : AcquireCall} (begun : s.begun i = some call) :
    call.key.display.toList <:+: (dashboardHandler formats monitoring s.manager monitor).poolsRows.toList := by
  obtain ⟨p, member, same⟩ := mem_getStats (System.reachable_registered reached i call begun)
  have inRow : p.key.display.toList <:+: (poolRow p).toList := by
    rw [poolRow, tableRow_toList]
    exact List.infix_append_of_infix_right List.infix_append_left
  rw [dashboardHandler, generateDashboardHtml, String.toList_intercalate, ← same]
  exact inRow.trans (infix_intercalate_of_mem (List.mem_map_of_mem (List.mem_map_of_mem member)) _)

-- `</script`.
def endScript : List Char := '<' :: ['/', 's', 'c', 'r', 'i', 'p', 't']

theorem notMem_number (n : Nat) : '<' ∉ (toString n).toList := by
  intro member
  rw [show (toString n).toList = Nat.toDigits 10 n from Nat.toList_repr] at member
  exact absurd (Nat.isDigit_of_mem_toDigits (by decide) (by decide) member) (by decide)

theorem notMem_jsonOption (n : Option Nat) : '<' ∉ (jsonOption n).toList := by
  cases n with
  | none => decide
  | some n => exact notMem_number n

theorem endScript_jsonString (formats : Formats) (text : String) :
    endScript <:+: (jsonString formats text).toList ↔ endScript <:+: text.toList := by
  have parts : (jsonString formats text).toList = ['"'] ++ (text.toList.flatMap formats.escape ++ '"' :: []) := by
    simp [jsonString]
  rw [parts, endScript, infix_append_of_notMem (by decide), infix_append_separator (by decide),
    infix_escaped formats.escapes (by decide) (by simp [Special])]
  exact or_iff_left (not_infix_of_notMem (by decide))

theorem endScript_jsonArray (items : List String) :
    endScript <:+: (jsonArray items).toList ↔ ∃ item ∈ items, endScript <:+: item.toList := by
  have parts : (jsonArray items).toList = ['['] ++ ([','].intercalate (items.map String.toList) ++ ']' :: []) := by
    simp [jsonArray, String.toList_intercalate]
  rw [parts, endScript, infix_append_of_notMem (by decide), infix_append_separator (by decide),
    infix_intercalate (by decide) (by decide), or_iff_left (not_infix_of_notMem (by decide))]
  simp

theorem endScript_jsonObject {fields : List (String × String)} (names : ∀ field ∈ fields, '<' ∉ field.1.toList) :
    endScript <:+: (jsonObject fields).toList ↔ ∃ field ∈ fields, endScript <:+: field.2.toList := by
  have parts : (jsonObject fields).toList = ['\x7b'] ++ ([','].intercalate
      (fields.map fun field => (['"'] ++ field.1.toList ++ ['"', ':']) ++ field.2.toList) ++ '\x7d' :: []) := by
    simp [jsonObject, String.toList_intercalate, Function.comp_def]
  rw [parts, endScript, infix_append_of_notMem (by decide), infix_append_separator (by decide),
    infix_intercalate (by decide) (by decide), or_iff_left (not_infix_of_notMem (by decide))]
  simp only [List.mem_map, exists_exists_and_eq_and]
  refine exists_congr fun field => and_congr_right fun member => infix_append_of_notMem ?_
  simpa using names field member

theorem endScript_display (key : PoolKey) :
    endScript <:+: key.display.toList ↔ endScript <:+: key.host.toList ∨ endScript <:+: key.database.toList ∨
      endScript <:+: key.user.toList := by
  have parts : key.display.toList = key.host.toList ++ ':' :: (((toString key.port.toNat).toList ++ ['/']) ++
      (key.database.toList ++ '@' :: key.user.toList)) := by
    simp [PoolKey.display]
  have port : '<' ∉ (toString key.port.toNat).toList ++ ['/'] := by
    simpa using notMem_number key.port.toNat
  rw [parts, endScript, infix_append_separator (by decide), infix_append_of_notMem port,
    infix_append_separator (by decide)]

theorem endScript_poolStats (formats : Formats) (p : PoolStats) :
    endScript <:+: (p.toJson formats).toList ↔
      ∃ name ∈ [p.key.host, p.key.database, p.key.user], endScript <:+: name.toList := by
  have number (n : Nat) : ¬ endScript <:+: (toString n).toList := not_infix_of_notMem (notMem_number n)
  rw [PoolStats.toJson, endScript_jsonObject]
  · simp only [List.mem_cons, List.not_mem_nil, or_false, exists_eq_or_imp, exists_eq_left, number,
      endScript_jsonString, endScript_display]
  · simp only [List.forall_mem_cons]
    exact ⟨by decide, by decide, by decide, by decide, by decide, nofun⟩

theorem endScript_dbSizeInfo (formats : Formats) (d : DbSizeInfo) :
    endScript <:+: (d.toJson formats).toList ↔ endScript <:+: d.database.toList := by
  have number (n : Option Nat) : ¬ endScript <:+: (jsonOption n).toList := not_infix_of_notMem (notMem_jsonOption n)
  have flag : ¬ endScript <:+: (if d.overLimit then "true" else "false").toList := by
    cases d.overLimit <;> decide
  rw [DbSizeInfo.toJson, endScript_jsonObject]
  · simp only [List.mem_cons, List.not_mem_nil, or_false, exists_eq_or_imp, exists_eq_left, number, flag,
      endScript_jsonString]
  · simp only [List.forall_mem_cons]
    exact ⟨by decide, by decide, by decide, by decide, nofun⟩

/-- The second page opens the tags of the first in each of its rows, and so in the tables, and nothing in its
data closes the script. -/
structure MarkupKept (formats : Formats) (pools renamed : List PoolStats) (databases others : List DbSizeInfo)
    (total : Nat) : Prop where
  poolRows : (renamed.map fun p => opens (poolRow p).toList) = pools.map fun p => opens (poolRow p).toList
  dbRows : (others.map fun d => opens (dbRow formats d).toList) = databases.map fun d => opens (dbRow formats d).toList
  tables : opens (generateDashboardHtml formats renamed others total).poolsRows.toList =
      opens (generateDashboardHtml formats pools databases total).poolsRows.toList ∧
    opens (generateDashboardHtml formats renamed others total).dbsRows.toList =
      opens (generateDashboardHtml formats pools databases total).dbsRows.toList
  script : ¬ endScript <:+: (generateDashboardHtml formats renamed others total).poolsJson.toList ∧
    ¬ endScript <:+: (generateDashboardHtml formats renamed others total).dbsJson.toList

def KeyTagsKept (p renamed : PoolStats) : Prop :=
  opens renamed.key.database.toList ++ opens renamed.key.user.toList =
    opens p.key.database.toList ++ opens p.key.user.toList

def NameTagsKept (d renamed : DbSizeInfo) : Prop := opens renamed.database.toList = opens d.database.toList

instance (p renamed : PoolStats) : Decidable (KeyTagsKept p renamed) := inferInstanceAs (Decidable (_ = _))

instance (d renamed : DbSizeInfo) : Decidable (NameTagsKept d renamed) := inferInstanceAs (Decidable (_ = _))

-- In each row the names open the tags that the former names opened, and none of them, nor a host, closes
-- the script.
structure NamesInert (pools renamed : List PoolStats) (databases others : List DbSizeInfo) : Prop where
  keys : List.Forall₂ KeyTagsKept pools renamed
  names : List.Forall₂ NameTagsKept databases others
  poolScript : ∀ p ∈ renamed, ∀ name ∈ [p.key.host, p.key.database, p.key.user], ¬ endScript <:+: name.toList
  dbScript : ∀ d ∈ others, ¬ endScript <:+: d.database.toList

theorem opens_joined {A : Type} (row : A → String) (rows : List A) :
    opens ("\n".intercalate (rows.map row)).toList = (rows.map fun a => opens (row a).toList).flatten := by
  rw [String.toList_intercalate]
  have joined := @opens_intercalate '\n' rfl (by decide) ((rows.map row).map String.toList)
  rw [List.map_map, List.map_map] at joined
  rw [List.map_map]
  exact joined

theorem markupKept_iff (formats : Formats) {pools renamed : List PoolStats} {databases others : List DbSizeInfo}
    (keys : List.Forall₂ PoolRenamed pools renamed) (names : List.Forall₂ DbRenamed databases others)
    (total : Nat) :
    MarkupKept formats pools renamed databases others total ↔ NamesInert pools renamed databases others := by
  have poolRows : ((renamed.map fun p => opens (poolRow p).toList) = pools.map fun p => opens (poolRow p).toList) ↔
      List.Forall₂ KeyTagsKept pools renamed := by
    refine map_eq_iff_forall₂ (fun p other change => ?_) keys
    obtain ⟨database, user, rfl⟩ := change
    exact opens_poolRow_rename p database user
  have dbRows : ((others.map fun d => opens (dbRow formats d).toList) =
      databases.map fun d => opens (dbRow formats d).toList) ↔ List.Forall₂ NameTagsKept databases others := by
    refine map_eq_iff_forall₂ (fun d other change => ?_) names
    obtain ⟨database, rfl⟩ := change
    exact opens_dbRow_rename formats d database
  have poolScript : ¬ endScript <:+: (generateDashboardHtml formats renamed others total).poolsJson.toList ↔
      ∀ p ∈ renamed, ∀ name ∈ [p.key.host, p.key.database, p.key.user], ¬ endScript <:+: name.toList := by
    rw [generateDashboardHtml, endScript_jsonArray]
    simp only [List.mem_map, exists_exists_and_eq_and, endScript_poolStats, not_exists, not_and]
  have dbScript : ¬ endScript <:+: (generateDashboardHtml formats renamed others total).dbsJson.toList ↔
      ∀ d ∈ others, ¬ endScript <:+: d.database.toList := by
    rw [generateDashboardHtml, endScript_jsonArray]
    simp only [List.mem_map, exists_exists_and_eq_and, endScript_dbSizeInfo, not_exists, not_and]
  constructor
  · intro kept
    exact ⟨poolRows.mp kept.poolRows, dbRows.mp kept.dbRows, poolScript.mp kept.script.1, dbScript.mp kept.script.2⟩
  · intro inert
    have pools_ := poolRows.mpr inert.keys
    have dbs := dbRows.mpr inert.names
    refine ⟨pools_, dbs, ⟨?_, ?_⟩, poolScript.mpr inert.poolScript, dbScript.mpr inert.dbScript⟩
    · simp only [generateDashboardHtml, opens_joined, pools_]
    · simp only [generateDashboardHtml, opens_joined, dbs]

def serdeEscape (c : Char) : List Char :=
  if c = '"' then ['\\', '"']
  else if c = '\\' then ['\\', '\\']
  else if c = '\x08' then ['\\', 'b']
  else if c = '\t' then ['\\', 't']
  else if c = '\n' then ['\\', 'n']
  else if c = '\x0c' then ['\\', 'f']
  else if c = '\r' then ['\\', 'r']
  else if c.toNat < 0x20 then ['\\', 'u', '0', '0', Nat.digitChar (c.toNat / 16), Nat.digitChar (c.toNat % 16)]
  else [c]

theorem serdeEscape_escapes : Escapes serdeEscape Special := by
  have low : ∀ n < 128, Special (Char.ofNat n) →
      (serdeEscape (Char.ofNat n)).head? = some '\\' ∧ '<' ∉ (serdeEscape (Char.ofNat n)).tail := by decide
  refine ⟨fun c plain => ?_, fun c special => ?_, by decide⟩
  · obtain ⟨quote, backslash, printed⟩ : c ≠ '"' ∧ c ≠ '\\' ∧ ¬ c.toNat < 0x20 := by
      simpa [Special, not_or] using plain
    have control (d : Char) (below : d.toNat < 0x20) : c ≠ d := fun same => printed (same ▸ below)
    simp only [serdeEscape, quote, backslash, printed, control '\x08' (by decide), control '\t' (by decide),
      control '\n' (by decide), control '\x0c' (by decide), control '\r' (by decide), if_false]
  · have small : c.toNat < 128 := by
      obtain rfl | rfl | below := special
      · decide
      · decide
      · omega
    obtain ⟨head, tail⟩ := low c.toNat small (by rwa [Char.ofNat_toNat])
    rw [Char.ofNat_toNat] at head tail
    exact ⟨(serdeEscape c).tail, (List.cons_head?_tail head).symm, tail⟩

-- On whole numbers of a unit.
def serdeFormats : Formats where
  escape := serdeEscape
  twoDecimals bytes unit := toString (bytes / unit) ++ ".00"
  escapes := serdeEscape_escapes

def refusedAs (database user : String) : PoolStats := ⟨⟨"localhost", 5432, database, user⟩, 0, 0, 0, 1⟩

theorem markupKept_ordinary :
    MarkupKept serdeFormats [refusedAs "app" "app"] [refusedAs "a < b" "\"bob\""] [⟨"app", some 1024, none, false⟩]
      [⟨"a < b", some 1024, none, false⟩] 1 := by
  refine (markupKept_iff serdeFormats (.cons ⟨"a < b", "\"bob\"", rfl⟩ .nil) (.cons ⟨"a < b", rfl⟩ .nil) 1).mpr ?_
  exact ⟨.cons (by decide) .nil, .cons (by decide) .nil, by decide, by decide⟩

-- The user name of a login that is refused ends the script and opens a tag of its own.
theorem not_markupKept_script :
    opens (poolRow (refusedAs "app" "</script><img src=x>")).toList ≠ opens (poolRow (refusedAs "app" "app")).toList ∧
      ¬ ∀ formats pools renamed databases others total, List.Forall₂ PoolRenamed pools renamed →
        List.Forall₂ DbRenamed databases others → MarkupKept formats pools renamed databases others total := by
  constructor
  · intro same
    have tags := (opens_poolRow_rename (refusedAs "app" "app") "app" "</script><img src=x>").mp same
    exact absurd tags (by decide)
  · intro kept
    have broken := kept serdeFormats [refusedAs "app" "app"] [refusedAs "app" "</script><img src=x>"] [] [] 0
      (.cons ⟨"app", "</script><img src=x>", rfl⟩ .nil) .nil
    refine broken.script.1 ((endScript_jsonArray _).mpr ⟨_, List.mem_cons_self, ?_⟩)
    exact (endScript_poolStats _ _).mpr ⟨"</script><img src=x>", by simp [refusedAs], by decide⟩

end PgMux
