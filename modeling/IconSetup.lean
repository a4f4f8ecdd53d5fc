import IconSetup.Core.Run
import IconSetup.Core.Ternary
import IconSetup.Core.Dml
import IconSetup.Lookup.Schema
import IconSetup.Lookup.Prevalence
import IconSetup.Core.Json
import IconSetup.Core.JsonLex
import IconSetup.Core.JsonText
import IconSetup.Core.JsonStrings
import IconSetup.Core.PgJson
import IconSetup.Core.Query
import IconSetup.Lookup.Views
import IconSetup.Lookup.ViewsAgree
import IconSetup.Lookup.ProcessLock
import IconSetup.Core.Fallible
import IconSetup.Core.Text
import IconSetup.Submit.Attachments
import IconSetup.Submit.SingleSession
import IconSetup.Load.Loaders
import IconSetup.Load.WholePayload
import IconSetup.Load.SchoolsLoad
import IconSetup.Load.LotIds
import IconSetup.Lookup.LotLookups
import IconSetup.Lookup.CodeLookups
import IconSetup.Core.ReadCommitted
import IconSetup.Load.ConcurrentLoads
import IconSetup.Core.Catalog
import IconSetup.Deploy.Scripts
import IconSetup.Deploy.Redeploy
import IconSetup.Core.CopyText
import IconSetup.Geocode.Etl
import IconSetup.Geocode.ReadBack
import IconSetup.Geocode.LoadScript
import IconSetup.Geocode.StreetDirs
import IconSetup.Geocode.BlankFields
import IconSetup.Cf.CredsJson
import IconSetup.Core.Shell
import IconSetup.Cf.UserProvidedService
import IconSetup.Cf.ExecPsql
import IconSetup.Cf.RmPsql
import IconSetup.Cf.OneTimeSetup
import IconSetup.Core.JsString
import IconSetup.Core.JsValue
import IconSetup.Cf.EnvJs
import IconSetup.Cf.LocalJson
import IconSetup.Core.JsonTokens
import IconSetup.Core.JsonEqual
import IconSetup.Core.JsonLayout
import IconSetup.Core.Echo
import IconSetup.Cf.Services
import IconSetup.Core.Words
import IconSetup.Core.BashEcho
import IconSetup.Cf.ReadProperties
import IconSetup.Load.SerialLoads
import IconSetup.Load.LoadProgress
import IconSetup.Lookup.LockProgress
import IconSetup.Core.Cascade
import IconSetup.Core.CopyOut
import IconSetup.Lookup.TableColumns
import IconSetup.Lookup.Statements
import IconSetup.Lookup.ViewsAfterDelete
import IconSetup.Core.Session
import IconSetup.Core.Psql
import IconSetup.Lookup.LookupData
import IconSetup.Lookup.Reload
import IconSetup.Lookup.Indexes
import IconSetup.Lookup.DumpLookups
import IconSetup.Lookup.Published
import IconSetup.Core.Admission
import IconSetup.Submit.RaceBound
import IconSetup.Deploy.Roles
import IconSetup.Cf.CreateServices
import IconSetup.Cf.Environment
import IconSetup.Cf.RepeatedRuns
