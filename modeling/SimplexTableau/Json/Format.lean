import SimplexTableau.Json.Codec
import SimplexTableau.Solution
import SimplexTableau.Problem

namespace SimplexTableau

/-!
# The data format

How problems, tableaus, records and solutions stand in a data file.  Each structure is described
once, with its keys in the order in which they are written.

* `Problem.codec`, `Tableau.codec`, `Solution.codec`, … — the codecs;
* `Trace.codec` — the records of the steps, as a list.

The error of a solution without optimum is not part of the format.
-/

open Json

/-! ### Columns and tableaus -/

/-- The name of a kind of columns. -/
def ColumnKind.name : ColumnKind → String
  | .structural => "structural"
  | .slack => "slack"

/-- Kinds of columns. -/
def ColumnKind.codec [NumberReader] : Codec ColumnKind := .choice name [.structural, .slack]

/-- Columns. -/
def Column.codec [NumberReader] : Codec Column :=
  Schema.codec {
    name := "Column"
    blank := default
    members := [
      .field "kind" ColumnKind.codec Column.kind fun kind c => { c with kind },
      .field "index" .natural Column.index fun index c => { c with index },
      .field "name" .string Column.name fun name c => { c with name }] }

/-- Tableaus, of whatever shape. -/
def Tableau.codec [NumberReader] : Codec (Tableau Float) :=
  Schema.codec {
    name := "Tableau"
    blank := default
    members := [
      .field "data" (.array (.array .float)) Tableau.rows fun rows t => { t with rows },
      .field "columns" (.array Column.codec) Tableau.columns fun columns t => { t with columns },
      .field "n_vars" .natural Tableau.numStructural fun n t => { t with numStructural := n },
      .field "n_slack" .natural Tableau.numSlack fun n t => { t with numSlack := n }] }

/-! ### Problems -/

/-- Problems, valid or not. -/
def Problem.codec [NumberReader] : Codec (Problem Float) :=
  Schema.codec {
    name := "Problem"
    blank := default
    members := [
      .field "objective" (.list .float) Problem.objective fun objective p => { p with objective },
      .field "constraints" (.list (.list .float)) Problem.constraints
        fun constraints p => { p with constraints },
      .field "rhs" (.list .float) Problem.rhs fun rhs p => { p with rhs }] }

/-! ### Records -/

/-- Values of variables. -/
def VariableValue.codec [NumberReader] : Codec (VariableValue Float) :=
  Schema.codec {
    name := "VariableValue"
    blank := default
    members := [
      .field "name" .string VariableValue.name fun name v => { v with name },
      .field "kind" ColumnKind.codec VariableValue.kind fun kind v => { v with kind },
      .field "value" .float VariableValue.value fun value v => { v with value },
      .optional "row" .natural VariableValue.row fun row v => { v with row }] }

/-- Basic solutions. -/
def Classification.codec [NumberReader] : Codec (Classification Float) :=
  Schema.codec {
    name := "Classification"
    blank := default
    members := [
      .field "basic" (.list VariableValue.codec) Classification.basic
        fun basic c => { c with basic },
      .field "non_basic" (.list VariableValue.codec) Classification.nonBasic
        fun nonBasic c => { c with nonBasic }] }

/-- The name of a state. -/
def State.name : State → String
  | .initial => "initial"
  | .checking => "checking"
  | .pivoting => "pivoting"
  | .optimal => "optimal"
  | .unbounded => "unbounded"
  | .iterationLimitExceeded => "iteration_limit_exceeded"

/-- States of a run. -/
def State.codec [NumberReader] : Codec State :=
  .choice name [.initial, .checking, .pivoting, .optimal, .unbounded, .iterationLimitExceeded]

/-- Records of steps. -/
def Record.codec [NumberReader] : Codec (Record Float) :=
  Schema.codec {
    name := "TraceRecord"
    blank := default
    members := [
      .field "step" .natural Record.step fun step r => { r with step },
      .field "state" State.codec Record.state fun state r => { r with state },
      .field "tableau" Tableau.codec Record.tableau fun tableau r => { r with tableau },
      .optional "entering_column" .natural Record.enteringColumn
        fun enteringColumn r => { r with enteringColumn },
      .optional "entering" .string Record.entering fun entering r => { r with entering },
      .optional "leaving_row" .natural Record.leavingRow fun leavingRow r => { r with leavingRow },
      .optional "leaving" .string Record.leaving fun leaving r => { r with leaving },
      .optional "pivot_element" .float Record.pivotElement
        fun pivotElement r => { r with pivotElement },
      .field "classification" Classification.codec Record.classification
        fun classification r => { r with classification },
      .field "z" .float Record.z fun z r => { r with z }] }

/-- The records of the steps. -/
def Trace.codec [NumberReader] : Codec (List (Record Float)) := .list Record.codec

/-! ### Solutions -/

/-- The name of a status. -/
def Status.name : Status → String
  | .optimal => "optimal"
  | .unbounded => "unbounded"
  | .iterationLimit => "iteration_limit"

/-- How a run ended. -/
def Status.codec [NumberReader] : Codec Status :=
  .choice name [.optimal, .unbounded, .iterationLimit]

/-- Solutions, without the error they carry. -/
def Solution.codec [NumberReader] : Codec (Solution Float) :=
  Schema.codec {
    name := "Solution"
    blank := default
    members := [
      .field "status" Status.codec Solution.status fun status s => { s with status },
      .optional "z" .float Solution.z fun z s => { s with z },
      .optional "variables" (.assignment .float) Solution.values
        fun values s => { s with values },
      .field "iterations" .natural Solution.iterations fun iterations s => { s with iterations },
      .field "trace" Trace.codec Solution.trace fun trace s => { s with trace }] }

end SimplexTableau
