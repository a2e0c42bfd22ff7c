import Foresight.Code.Symbol

/-!
# The framework

What is known of types that no solution declares: the types behind the keywords, the framework types
that code commonly names, the result types of their most used members, and the methods that state
assertions or contracts. Everything else has to be declared in the solution.
-/

namespace Foresight.CSharp

/-- Keyword types and the framework types that they stand for. -/
def keywordTypes : List (String × String) :=
  [("bool", "System.Boolean"),
   ("byte", "System.Byte"),
   ("char", "System.Char"),
   ("decimal", "System.Decimal"),
   ("double", "System.Double"),
   ("float", "System.Single"),
   ("int", "System.Int32"),
   ("long", "System.Int64"),
   ("nint", "System.IntPtr"),
   ("nuint", "System.UIntPtr"),
   ("object", "System.Object"),
   ("sbyte", "System.SByte"),
   ("short", "System.Int16"),
   ("string", "System.String"),
   ("uint", "System.UInt32"),
   ("ulong", "System.UInt64"),
   ("ushort", "System.UInt16")]

def wellKnownTypes : List (String × String) :=
  [("System", "ArgumentException"),
   ("System", "ArgumentNullException"),
   ("System", "Console"),
   ("System", "Convert"),
   ("System", "DateTime"),
   ("System", "Environment"),
   ("System", "Exception"),
   ("System", "Guid"),
   ("System", "IDisposable"),
   ("System", "InvalidOperationException"),
   ("System", "Math"),
   ("System", "NotImplementedException"),
   ("System", "Object"),
   ("System", "String"),
   ("System", "TimeSpan"),
   ("System", "Uri"),
   ("System.Collections", "ArrayList"),
   ("System.Collections", "Hashtable"),
   ("System.Collections.Generic", "Dictionary"),
   ("System.Collections.Generic", "HashSet"),
   ("System.Collections.Generic", "ICollection"),
   ("System.Collections.Generic", "IDictionary"),
   ("System.Collections.Generic", "IEnumerable"),
   ("System.Collections.Generic", "IList"),
   ("System.Collections.Generic", "List"),
   ("System.Collections.Generic", "Queue"),
   ("System.Collections.Generic", "Stack"),
   ("System.Data", "DataColumn"),
   ("System.Data", "DataRow"),
   ("System.Data", "DataRowCollection"),
   ("System.Data", "DataSet"),
   ("System.Data", "DataTable"),
   ("System.Data", "IDataReader"),
   ("System.Data", "IDbCommand"),
   ("System.Data", "IDbConnection"),
   ("System.Data.SqlClient", "SqlCommand"),
   ("System.Data.SqlClient", "SqlConnection"),
   ("System.Data.SqlClient", "SqlDataReader"),
   ("System.Data.SqlClient", "SqlParameter"),
   ("System.Data.SqlClient", "SqlTransaction"),
   ("System.Diagnostics", "Debug"),
   ("System.Diagnostics", "Process"),
   ("System.Diagnostics", "Stopwatch"),
   ("System.Diagnostics", "Trace"),
   ("System.Diagnostics.Contracts", "Contract"),
   ("System.IO", "Directory"),
   ("System.IO", "File"),
   ("System.IO", "FileInfo"),
   ("System.IO", "FileStream"),
   ("System.IO", "IOException"),
   ("System.IO", "MemoryStream"),
   ("System.IO", "Path"),
   ("System.IO", "Stream"),
   ("System.IO", "StreamReader"),
   ("System.IO", "StreamWriter"),
   ("System.IO", "StringReader"),
   ("System.IO", "StringWriter"),
   ("System.IO", "TextReader"),
   ("System.IO", "TextWriter"),
   ("System.Net", "HttpWebRequest"),
   ("System.Net", "WebClient"),
   ("System.Net.Http", "HttpClient"),
   ("System.Net.Http", "HttpResponseMessage"),
   ("System.Text", "Encoding"),
   ("System.Text", "StringBuilder"),
   ("System.Threading", "CancellationToken"),
   ("System.Threading", "Monitor"),
   ("System.Threading", "Thread"),
   ("System.Threading.Tasks", "Task"),
   ("System.Xml", "XmlDocument"),
   ("System.Xml", "XmlElement"),
   ("System.Xml", "XmlNode"),
   ("System.Xml", "XmlReader"),
   ("System.Xml", "XmlWriter"),
   ("NUnit.Framework", "Assert"),
   ("Xunit", "Assert"),
   ("Microsoft.VisualStudio.TestTools.UnitTesting", "Assert")]

/-- Framework members by owner and name, with the presentable and the long name of their result. -/
def wellKnownMembers : List (String × String × String × String) :=
  [("System.Data.DataTable", "NewRow", "DataRow", "System.Data.DataRow"),
   ("System.Data.DataTable", "Rows", "DataRowCollection", "System.Data.DataRowCollection"),
   ("System.Data.SqlClient.SqlCommand", "ExecuteNonQuery", "int", "System.Int32"),
   ("System.Data.SqlClient.SqlCommand", "ExecuteReader",
    "SqlDataReader", "System.Data.SqlClient.SqlDataReader"),
   ("System.Data.SqlClient.SqlCommand", "ExecuteScalar", "object", "System.Object"),
   ("System.Data.SqlClient.SqlConnection", "BeginTransaction",
    "SqlTransaction", "System.Data.SqlClient.SqlTransaction"),
   ("System.Data.SqlClient.SqlConnection", "CreateCommand",
    "SqlCommand", "System.Data.SqlClient.SqlCommand"),
   ("System.Data.SqlClient.SqlDataReader", "Read", "bool", "System.Boolean"),
   ("System.IO.File", "Exists", "bool", "System.Boolean"),
   ("System.IO.File", "OpenRead", "FileStream", "System.IO.FileStream"),
   ("System.IO.File", "OpenText", "StreamReader", "System.IO.StreamReader"),
   ("System.IO.File", "ReadAllText", "string", "System.String"),
   ("System.IO.StreamReader", "ReadLine", "string", "System.String"),
   ("System.IO.StreamReader", "ReadToEnd", "string", "System.String"),
   ("System.String", "Length", "int", "System.Int32"),
   ("System.String", "Split", "string[]", "System.String[]"),
   ("System.String", "Substring", "string", "System.String"),
   ("System.String", "ToLower", "string", "System.String"),
   ("System.String", "ToUpper", "string", "System.String"),
   ("System.String", "Trim", "string", "System.String"),
   ("System.Text.StringBuilder", "Append", "StringBuilder", "System.Text.StringBuilder"),
   ("System.Text.StringBuilder", "ToString", "string", "System.String")]

/-- Methods whose calls state an assertion or a contract. -/
def assertionMethods : List (String × String) :=
  [("System.Diagnostics.Debug", "Assert"),
   ("System.Diagnostics.Trace", "Assert"),
   ("System.Diagnostics.Contracts.Contract", "Assert"),
   ("System.Diagnostics.Contracts.Contract", "Assume"),
   ("System.Diagnostics.Contracts.Contract", "Ensures"),
   ("System.Diagnostics.Contracts.Contract", "Invariant"),
   ("System.Diagnostics.Contracts.Contract", "Requires")]

/-- Types of which every method is an assertion. -/
def assertionTypes : List String :=
  ["NUnit.Framework.Assert",
   "Xunit.Assert",
   "Microsoft.VisualStudio.TestTools.UnitTesting.Assert"]

/-- The framework type behind a keyword. -/
def keywordType? (name : String) : Option String := keywordTypes.lookup name

/-- Whether `owner.method` states an assertion or a contract. -/
def isAssertion (owner : QualifiedName) (method : String) : Bool :=
  assertionTypes.contains owner.fullName || assertionMethods.contains (owner.fullName, method)

def wellKnownMember? (owner member : String) : Option TypeRef :=
  (wellKnownMembers.find? fun (type, name, _) => type == owner && name == member).map
    fun (_, _, presentable, long) => ⟨presentable, long⟩

end Foresight.CSharp
