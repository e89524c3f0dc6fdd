import SqlServerMcp.JsonValue
import SqlServerMcp.Text

/-!
The fixed texts of the generated document: what it says of an object of each
type, of the errors that every operation can return, and of the login types that
a version of the server supports.
-/
namespace SqlServerMcp.DocumentTexts

open AssocMap JsonValue Text

/-- Hand-written summaries of well-known objects. -/
def summaries : List (String × String) :=
  [("sp_who", "List active SQL Server user connections/processes and what they're blocking."),
   ("sp_who2", "Extended, more readable version of sp_who."),
   ("sp_help", "Report metadata about a database object (or all objects if no name given)."),
   ("sp_helpdb", "Report information about one or all databases."),
   ("sp_helptext", "Return the definition text of a view, procedure, trigger, or function."),
   ("sp_helpindex", "List the indexes defined on a table or view."),
   ("sp_helpconstraint", "List the constraints defined on a table."),
   ("sp_columns", "Return column metadata for a table or view, ODBC-catalog style."),
   ("sp_tables", "Return the list of tables/views available in the current environment."),
   ("sp_stored_procedures", "Return the list of stored procedures in the current environment."),
   ("sp_databases", "List databases available on the server (or via linked server)."),
   ("sp_server_info", "Return server attribute/value pairs describing the instance."),
   ("sp_configure", "Display or change server-wide configuration options."),
   ("sp_rename", "Rename a table, column, index, or other user object."),
   ("sp_executesql", "Execute a Transact-SQL statement or batch with parameterized substitution."),
   ("sp_execute", "Execute a previously prepared statement handle."),
   ("sp_prepare", "Prepare a Transact-SQL statement and return a handle for repeated execution."),
   ("sp_unprepare", "Release resources for a statement handle created by sp_prepare."),
   ("sp_addlinkedserver", "Register a linked server for distributed queries."),
   ("sp_droplinkedserver", "Remove a linked server registration."),
   ("sp_linkedservers", "List all linked servers registered on the instance."),
   ("sp_addrole", "Create a new database role."),
   ("sp_addrolemember", "Add a database user to a database role."),
   ("sp_addlogin",
    "Create a new SQL Server login (legacy; sp_addlogin is deprecated in favor of CREATE " ++
     "LOGIN)."),
   ("sp_grantdbaccess",
    "Grant a login access to the current database (legacy; deprecated in favor of CREATE " ++
     "USER)."),
   ("sp_depends",
    "List the objects that depend on, or are depended on by, a given object (deprecated in " ++
     "favor of sys.dm_sql_referencing_entities)."),
   ("sp_lock",
    "Report information about currently held locks (legacy; deprecated in favor of " ++
     "sys.dm_tran_locks)."),
   ("sp_monitor", "Display SQL Server usage statistics since the last call."),
   ("sp_spaceused", "Report the disk space used by a table or the whole database."),
   ("sp_estimate_data_compression_savings",
    "Estimate the space saved by applying row/page compression to a table or index."),
   ("sp_set_session_context",
    "Set a key-value pair in the current session context, readable via SESSION_CONTEXT()."),
   ("sp_describe_first_result_set",
    "Describe the shape of the first result set a Transact-SQL statement would return."),
   ("sp_describe_undeclared_parameters",
    "Describe the parameters expected by a Transact-SQL statement."),
   ("sp_msforeachtable",
    "Run a command once for each table in the database (undocumented but widely used)."),
   ("sp_msforeachdb",
    "Run a command once for each database on the server (undocumented but widely used)."),
   ("sp_add_job", "Create a new SQL Server Agent job."),
   ("sp_add_jobstep", "Add a step to a SQL Server Agent job."),
   ("sp_add_jobschedule", "Attach a schedule to a SQL Server Agent job."),
   ("sp_add_schedule", "Create a reusable SQL Server Agent schedule."),
   ("sp_start_job", "Start a SQL Server Agent job immediately."),
   ("sp_stop_job", "Stop a currently running SQL Server Agent job."),
   ("sp_delete_job", "Delete a SQL Server Agent job."),
   ("sp_help_job", "Report information about one or all SQL Server Agent jobs."),
   ("sp_help_jobstep", "Report information about the steps of a SQL Server Agent job."),
   ("sp_help_jobschedule",
    "Report information about the schedules attached to a SQL Server Agent job."),
   ("sp_help_schedule", "Report information about SQL Server Agent schedules."),
   ("sp_helphistory", "Report the run history of a SQL Server Agent job.")]

/-- The name of an object as words. -/
def readable (name : String) : String :=
  String.ofList (name.toList.map fun c => if c = '_' then ' ' else c)

def objectSummary (name typeDesc : String) : String :=
  match summaries.lookup name with
  | some summary => summary
  | none =>
    if startsWith typeDesc "SQL_STORED_PROCEDURE" ∨ typeDesc = "CLR_STORED_PROCEDURE" then
      "System stored procedure " ++ readable name ++ " (see Microsoft Learn for details)."
    else if typeDesc = "EXTENDED_STORED_PROCEDURE" then
      "Extended stored procedure " ++ readable name ++ " (see Microsoft Learn for details)."
    else if contains typeDesc "TABLE_VALUED_FUNCTION" ∨ endsWith typeDesc "_FUNCTION" then
      "System function " ++ readable name ++ " (see Microsoft Learn for details)."
    else if typeDesc = "VIEW" then
      "System/catalog view " ++ readable name ++ " (see Microsoft Learn for details)."
    else "System object " ++ readable name ++ "."

def sqlErrorSchemaName : String := "SqlServerError"

def sqlErrorSchema : Json :=
  .obj
    [("type", .str "object"),
     ("description", .str
      ("Shape of a SQL Server engine error as surfaced on the TDS connection (the fields " ++
       "available from THROW / RAISERROR / ERROR_NUMBER() / ERROR_SEVERITY() / " ++
       "ERROR_STATE() / ERROR_PROCEDURE() / ERROR_LINE() / ERROR_MESSAGE(), or a client " ++
       "driver's exception object).")),
     ("properties", .obj
      [("number", .obj
        [("type", .str "integer"),
         ("x-sql-type", .str "int"),
         ("description", .str
          ("ERROR_NUMBER() -- e.g. 50000 for a user RAISERROR/THROW with no explicit error " ++
           "number."))]),
       ("severity", .obj
        [("type", .str "integer"),
         ("x-sql-type", .str "int"),
         ("description", .str
          ("ERROR_SEVERITY() -- see the severity-to-status mapping on each operation's " ++
           "error responses."))]),
       ("state", .obj
        [("type", .str "integer"),
         ("x-sql-type", .str "int"),
         ("description", .str
          ("ERROR_STATE() -- caller-defined, used to distinguish multiple raise points of " ++
           "the same error number."))]),
       ("procedure", .obj
        [("type", .arr [.str "string", .str "null"]),
         ("x-sql-type", .str "nvarchar(128)"),
         ("description", .str
          ("ERROR_PROCEDURE() -- null if the error was raised in a batch, not inside a " ++
           "procedure."))]),
       ("line", .obj
        [("type", .arr [.str "integer", .str "null"]),
         ("x-sql-type", .str "int"),
         ("description", .str "ERROR_LINE()")]),
       ("message", .obj
        [("type", .str "string"),
         ("x-sql-type", .str "nvarchar(2048)"),
         ("description", .str "ERROR_MESSAGE()")])]),
     ("required", .arr [.str "number", .str "severity", .str "state", .str "message"])]

/-- A reference to a schema of the document by its key. -/
def schemaRef (schemaKey : String) : String := "#/components/schemas/" ++ schemaKey

def refTo (schemaKey : String) : Json := .obj [("$ref", .str (schemaRef schemaKey))]

def jsonContent (schema : Json) : Json :=
  .obj [("application/json", .obj [("schema", schema)])]

def errorResponse (description : String) : Json :=
  .obj [("description", .str description), ("content", jsonContent (refTo sqlErrorSchemaName))]

/-- The responses that all operations share. -/
def buildErrorResponses : Fields :=
  [("400", errorResponse
     ("Statement/user error the caller can fix by changing input -- SQL Server severity " ++
      "11-16 (constraint violation, conversion error, invalid object/column name, explicit " ++
      "RAISERROR or THROW at the default severity 16, etc.).")),
   ("403", errorResponse
     ("Permission denied -- SQL Server severity 14 errors specifically about authorization " ++
      "(e.g. Msg 229/230, \"The EXECUTE/SELECT permission was denied on the object ...\"), " ++
      "as opposed to other severity-14 statement errors (400).")),
   ("500", errorResponse
     ("Resource, hardware/software, or fatal engine error -- SQL Server severity 17-25 -- " ++
      "not something the caller can fix by resubmitting the same request."))]

/-- The login types with the versions that support them. -/
def securitySchemes : List (String × List String × Json) :=
  [("sqlAuth", ["2017", "2019", "2022", "2025"],
    .obj
      [("type", .str "http"),
       ("scheme", .str "basic"),
       ("description", .str
        ("SQL Server Authentication: a SQL login (username + password) validated by the " ++
         "engine itself, e.g. `sqlcmd -U sa -P <password>`. Available in every version, but " ++
         "only usable when the instance is configured for Mixed Mode (SQL Server and " ++
         "Windows Authentication); Windows-Authentication-only instances reject it."))]),
   ("windowsAuth", ["2017", "2019", "2022", "2025"],
    .obj
      [("type", .str "http"),
       ("scheme", .str "negotiate"),
       ("description", .str
        ("Windows Authentication (Integrated Security): the client's Windows/Kerberos or " ++
         "NTLM identity is passed through instead of a SQL login, e.g. `sqlcmd -E`. " ++
         "Available in every version; on Linux containers this requires the container to be " ++
         "configured for Kerberos (keytab + krb5.conf) since there is no NTLM/domain-join " ++
         "support otherwise."))]),
   ("azureADAuth", ["2022", "2025"],
    .obj
      [("type", .str "oauth2"),
       ("description", .str
        ("Azure Active Directory (Microsoft Entra ID) authentication. Added as an engine " ++
         "feature for on-premises/Linux SQL Server in SQL Server 2022 (previously " ++
         "Azure-AD-only offering was limited to Azure SQL Database/Managed Instance); not " ++
         "available on SQL Server 2017 or 2019.")),
       ("flows", .obj
        [("authorizationCode", .obj
          [("authorizationUrl",
            .str "https://login.microsoftonline.com/common/oauth2/v2.0/authorize"),
           ("tokenUrl", .str "https://login.microsoftonline.com/common/oauth2/v2.0/token"),
           ("scopes", .obj
            [("https://database.windows.net/.default",
              .str "Access SQL Server as the signed-in Azure AD identity")])])])])]

/-- The login types of a version, each of which is enough on its own. -/
def buildSecurity (version : String) : Fields × List Json :=
  let supported := securitySchemes.filter fun scheme => version ∈ scheme.2.1
  (supported.map fun scheme => (scheme.1, scheme.2.2),
    supported.map fun scheme => .obj [(scheme.1, .arr [])])

end SqlServerMcp.DocumentTexts
