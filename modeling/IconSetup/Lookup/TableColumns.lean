/-
The columns of the lookup tables, as COPY writes and reads them: their order, their types, and which of them may be NULL.

- `valid` of a table's columns: its integers are in the range of their type, its texts are not longer than their varchar
  and hold no U+0000. A row that is not valid is no row of the table: PostgreSQL refuses it, or cuts it to one that is.
-/
import Mathlib.Tactic
import IconSetup.Core.CopyOut
import IconSetup.Lookup.Schema
import IconSetup.Load.Loaders

namespace IconSetup.TableColumns

open IconSetup.CopyOut
open IconSetup.Schema (Trade Agent Disease TradeAgent AgentDisease)
open IconSetup.Loaders (SchoolDaycare)

def agentColumns : Columns Agent :=
  (Columns.cons (notNull bigint) <| .cons (nullable (varchar 100)) <| .cons (nullable (varchar 100)) <|
    .cons (nullable (varchar 100)) <| .cons (nullable (varchar 100)) <| .cons (nullable boolean) <|
    .cons (nullable smallint) <| .cons (nullable int) <| .cons (nullable int) <| .cons (nullable (varchar 200)) <|
    .one (nullable (varchar 200))).iso
  (fun a => (a.snomed, a.shortEnName, a.shortFrName, a.longEnName, a.longFrName, a.isUserView, a.prevalenceIndex,
    a.ontarioStartYear, a.ontarioFinishYear, a.orderedDiseasesFr, a.orderedDiseasesEn))
  (fun (a, b, c, d, e, f, g, h, i, j, k) => ⟨a, b, c, d, e, f, g, h, i, j, k⟩) fun _ => rfl

def diseaseColumns : Columns Disease :=
  (Columns.cons (notNull bigint) <| .cons (nullable (varchar 100)) <| .cons (nullable (varchar 100)) <|
    .one (nullable smallint)).iso
  (fun d => (d.snomed, d.friendlyEnName, d.friendlyFrName, d.yellowCardOrder))
  (fun (a, b, c, d) => ⟨a, b, c, d⟩) fun _ => rfl

def tradeColumns : Columns Trade :=
  (Columns.cons (notNull bigint) <| .cons (nullable (varchar 100)) <| .cons (nullable (varchar 100)) <|
    .cons (nullable (varchar 100)) <| .cons (nullable int) <| .cons (nullable int) <| .cons (nullable smallint) <|
    .one (nullable (varchar 100))).iso
  (fun t => (t.snomed, t.friendlyEnName, t.friendlyFrName, t.manufacturer, t.ontarioStartYear, t.ontarioFinishYear,
    t.prevalenceIndex, t.panoramaName))
  (fun (a, b, c, d, e, f, g, h) => ⟨a, b, c, d, e, f, g, h⟩) fun _ => rfl

def agentDiseaseColumns : Columns AgentDisease :=
  (Columns.cons (notNull bigint) <| .one (notNull bigint)).iso (fun l => (l.agentSnomed, l.diseaseSnomed))
    (fun (a, b) => ⟨a, b⟩) fun _ => rfl

def tradeAgentColumns : Columns TradeAgent :=
  (Columns.cons (notNull bigint) <| .one (notNull bigint)).iso (fun l => (l.agentSnomed, l.tradeSnomed))
    (fun (a, b) => ⟨a, b⟩) fun _ => rfl

def schoolDaycareColumns : Columns SchoolDaycare :=
  (Columns.cons (nullable (varchar 50)) <| .cons (nullable (varchar 100)) <| .cons (nullable (varchar 100)) <|
    .cons (nullable (varchar 100)) <| .cons (nullable (varchar 100)) <| .cons (nullable (varchar 8)) <|
    .one (nullable (varchar 100))).iso
  (fun s => (s.identifier, s.phu, s.orgType, s.name, s.address, s.postalCode, s.city))
  (fun (a, b, c, d, e, f, g) => ⟨a, b, c, d, e, f, g⟩) fun _ => rfl

end IconSetup.TableColumns
