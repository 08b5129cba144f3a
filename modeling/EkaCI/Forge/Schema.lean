import Mathlib.Data.List.Basic

/-! The tables of the forges as the migrations leave them. A statement is prepared
against the schema when it is run: one that names a column or a table that is not
there fails, whatever the rows are. -/

namespace EkaCI

inductive Forge where
  | gitHub
  | gitLab
  | gitea
  deriving DecidableEq, Repr

inductive SqlTable where
  | gitHubPullRequests
  | gitHubJobSets
  | job
  | gitLabMergeRequests
  | gitLabJobSets
  | gitLabJob
  | giteaPullRequests
  | giteaJobSets
  | giteaJob
  | drv
  | jobDifference
  deriving DecidableEq, Repr

inductive SqlColumn where
  | rowid | sha | job | owner | repoName | projectId | domain | configJson
  | jobset | drvId | name | difference | drvPath | buildState
  | prNumber | mrIid | headSha | baseSha | title | author | state | createdAt | updatedAt
  | isMergeQueue | mergeGroupHeadSha | autoMergeEnabled | mergeMethod | mergedByUserId | mergedAt
  | commentMergeSha | commentMergeMethod | commentMergeRequesterId | commentMergeRequesterLogin
  | commentMergeRequesterUsername | commentMergeCommentId | commentMergeNoteId | commentMergeRequestedAt
  | jobsetId | attrPath | status
  deriving DecidableEq, Repr

/-- The columns of each table; a table without columns does not exist. -/
abbrev Schema := SqlTable → List SqlColumn

namespace Schema

/-- The columns that the tables of pull requests have in common. -/
def requestColumns : List SqlColumn :=
  [.owner, .repoName, .headSha, .baseSha, .title, .author, .state, .createdAt, .updatedAt, .autoMergeEnabled,
    .mergeMethod, .commentMergeSha, .commentMergeMethod, .commentMergeRequesterId, .commentMergeRequestedAt]

def jobColumns : List SqlColumn := [.jobset, .drvId, .name, .difference]

/-- After all migrations. There is no table `job_difference`, and no pull request
has a column `jobset_id`. -/
def migrated : Schema
  | .gitHubPullRequests =>
    requestColumns ++ [.prNumber, .isMergeQueue, .mergeGroupHeadSha, .mergedByUserId, .mergedAt,
      .commentMergeRequesterLogin, .commentMergeCommentId]
  | .gitHubJobSets => [.rowid, .sha, .job, .owner, .repoName, .configJson]
  | .gitLabMergeRequests =>
    requestColumns ++ [.mrIid, .projectId, .domain, .commentMergeRequesterUsername, .commentMergeNoteId]
  | .gitLabJobSets => [.rowid, .sha, .job, .owner, .repoName, .projectId, .domain, .configJson]
  | .giteaPullRequests =>
    requestColumns ++ [.prNumber, .domain, .commentMergeRequesterLogin, .commentMergeCommentId]
  | .giteaJobSets => [.rowid, .sha, .job, .owner, .repoName, .domain, .configJson]
  | .job | .gitLabJob | .giteaJob => jobColumns
  | .drv => [.rowid, .drvPath, .buildState]
  | .jobDifference => []

/-- With the table and the column that the statements expect. -/
def completed : Schema
  | .gitHubPullRequests => .jobsetId :: migrated .gitHubPullRequests
  | .jobDifference => [.jobset, .jobsetId, .attrPath, .status]
  | table => migrated table

end Schema

/-- The names in a statement. A column is looked up in its table, or in all tables
of the statement if it is not qualified. -/
structure Statement where
  tables : List SqlTable
  columns : List (Option SqlTable × SqlColumn)

inductive DbError where
  | noSuchTable (table : SqlTable)
  | noSuchColumn (column : SqlColumn)
  /-- A row lacks a field of the structure that it is read into. -/
  | columnNotFound (column : SqlColumn)
  deriving DecidableEq, Repr

namespace Schema

def has (schema : Schema) (statement : Statement) (column : Option SqlTable × SqlColumn) : Bool :=
  match column.1 with
  | some table => column.2 ∈ schema table
  | none => statement.tables.any fun table => column.2 ∈ schema table

def prepare (schema : Schema) (statement : Statement) : Except DbError Unit :=
  match statement.tables.find? fun table => (schema table).isEmpty with
  | some table => .error (.noSuchTable table)
  | none =>
    match statement.columns.find? fun column => !schema.has statement column with
    | some column => .error (.noSuchColumn column.2)
    | none => .ok ()

end Schema

namespace Forge

def requestTable : Forge → SqlTable
  | .gitHub => .gitHubPullRequests
  | .gitLab => .gitLabMergeRequests
  | .gitea => .giteaPullRequests

def jobsetTable : Forge → SqlTable
  | .gitHub => .gitHubJobSets
  | .gitLab => .gitLabJobSets
  | .gitea => .giteaJobSets

/-- The columns that tell a repository apart. -/
def keyColumns : Forge → List SqlColumn
  | .gitHub => [.owner, .repoName]
  | .gitLab => [.domain, .projectId]
  | .gitea => [.domain, .owner, .repoName]

def numberColumn : Forge → SqlColumn
  | .gitLab => .mrIid
  | _ => .prNumber

/-- The jobsets at the head of a pull request, joined on the commit; the selected
column is given. -/
def headJobset (forge : Forge) (selected : Option SqlTable × SqlColumn) : Statement where
  tables := [forge.requestTable, forge.jobsetTable]
  columns :=
    [selected, (forge.requestTable, .headSha), (forge.jobsetTable, .sha), (forge.requestTable, forge.numberColumn)] ++
      forge.keyColumns.map (some forge.requestTable, ·) ++ forge.keyColumns.map (some forge.jobsetTable, ·)

end Forge

namespace Statement

/-- Both questions about the jobs of a jobset ask the table of GitHub's jobs. -/
def jobsOfJobset : Statement where
  tables := [.job, .drv]
  columns := [(some .job, .drvId), (some .drv, .rowid), (some .job, .jobset), (some .job, .difference), (some .drv, .buildState)]

def selectRequest (forge : Forge) : Statement where
  tables := [forge.requestTable]
  columns := (forge.numberColumn :: forge.keyColumns).map (none, ·)

def attrPaths (jobsetColumn : SqlColumn) (others : List SqlColumn) : Statement where
  tables := [.jobDifference]
  columns := (.attrPath :: jobsetColumn :: others).map (none, ·)

end Statement

end EkaCI
